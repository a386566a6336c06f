import MyOS.StringC

/-!
drivers/e1000e.c: the descriptor rings, polled. The buffer of a descriptor is
the one `rx_bufs` or `tx_bufs` holds under its index, from `rtl8139_init` on.
-/

namespace MyOS.E1000

def rxDescCount : Nat := 32
def txDescCount : Nat := 16
def txBufSize : Nat := 2048
def rxBufSize : Nat := 2048

/-! ## Receiving -/

structure RxDesc where
  length : UInt16
  status : UInt8
  deriving DecidableEq

/-- The DD bit: the card has filled the descriptor. -/
def RxDesc.done (d : RxDesc) : Bool := d.status &&& 0x01 != 0

/-- The receive half of the driver. `rdt` is the register `RDT`; a buffer that
could not be allocated is `none`. -/
structure Rx where
  driverReady : Bool
  rxRing : Nat → RxDesc
  rxBufs : Nat → Option Mem
  rdt : Nat

/-- `rtl8139_init`: fresh memory behind the ring and the buffers, no descriptor
filled. -/
def Rx.init (lengths : Nat → UInt16) (bufs : Nat → Mem) : Rx :=
  { driverReady := true
    rxRing := fun i => ⟨lengths i, 0⟩
    rxBufs := fun i => some (bufs i)
    rdt := rxDescCount - 1 }

/-- A call of `net_rx`, with the descriptor the frame stood in. -/
structure RxCall where
  desc : Nat
  frame : List UInt8
  deriving DecidableEq

/-- The call made for the descriptor `i` if it is filled. -/
def Rx.call (rx : Rx) (i : Nat) : Option RxCall :=
  match rx.rxBufs i with
  | some buf =>
    if 0 < (rx.rxRing i).length.toNat then some ⟨i, buf.load 0 (rx.rxRing i).length.toNat⟩
    else none
  | none => none

/-- The body of the loop of `rtl8139_poll`. -/
def pollDesc (s : Rx × List RxCall) (i : Nat) : Rx × List RxCall :=
  let (rx, made) := s
  if (rx.rxRing i).done then
    ({ rx with
        rxRing := Function.update rx.rxRing i { rx.rxRing i with status := 0 }
        rdt := i },
      made ++ (rx.call i).toList)
  else (rx, made)

/-- The driver after the call, and the calls of `net_rx`, first one first. -/
def rtl8139Poll (rx : Rx) : Rx × List RxCall :=
  if rx.driverReady then (List.range rxDescCount).foldl pollDesc (rx, []) else (rx, [])

/-! What the loop has done when it reaches the index `n`. -/

/-- The last filled descriptor before `n`. -/
def lastDone (ring : Nat → RxDesc) (rdt : Nat) : Nat → Nat
  | 0 => rdt
  | n + 1 => if (ring n).done then n else lastDone ring rdt n

theorem lastDone_eq {ring : Nat → RxDesc} {rdt i n : Nat} (here : (ring i).done = true)
    (below : i < n) (later : ∀ j, i < j → j < n → (ring j).done = false) :
    lastDone ring rdt n = i := by
  induction n with
  | zero => exact absurd below (Nat.not_lt_zero i)
  | succ n ih =>
    rw [lastDone]
    by_cases last : i = n
    · rw [if_pos (last ▸ here), last]
    · rw [if_neg (by simp [later n (by omega) (Nat.lt_succ_self n)])]
      exact ih (by omega) fun j hi hj => later j hi (by omega)

theorem lastDone_none {ring : Nat → RxDesc} {rdt n : Nat}
    (idle : ∀ j < n, (ring j).done = false) : lastDone ring rdt n = rdt := by
  induction n with
  | zero => rfl
  | succ n ih =>
    rw [lastDone, if_neg (by simp [idle n (Nat.lt_succ_self n)])]
    exact ih fun j hj => idle j (by omega)

def cleared (ring : Nat → RxDesc) (n : Nat) : Nat → RxDesc :=
  fun i => if i < n ∧ (ring i).done then { ring i with status := 0 } else ring i

theorem cleared_not_done {ring : Nat → RxDesc} {n i : Nat} (below : i < n) :
    (cleared ring n i).done = false := by
  unfold cleared
  split
  · simp [RxDesc.done]
  · rename_i idle
    simpa [below] using idle

/-- The call the descriptor `i` is due, none when it is not filled. -/
def Rx.due (rx : Rx) (i : Nat) : Option RxCall :=
  if (rx.rxRing i).done then rx.call i else none

theorem pollDesc_range (rx : Rx) (n : Nat) :
    (List.range n).foldl pollDesc (rx, []) =
      ({ rx with rxRing := cleared rx.rxRing n, rdt := lastDone rx.rxRing rx.rdt n },
        (List.range n).filterMap rx.due) := by
  induction n with
  | zero =>
    have whole : cleared rx.rxRing 0 = rx.rxRing := by funext i; simp [cleared]
    simp [whole, lastDone]
  | succ n ih =>
    have due : (List.range (n + 1)).filterMap rx.due =
        (List.range n).filterMap rx.due ++ (rx.due n).toList := by
      rw [List.range_succ, List.filterMap_append]
      cases here : rx.due n <;> simp [here]
    have untouched : cleared rx.rxRing n n = rx.rxRing n := by simp [cleared]
    rw [due, List.range_succ, List.foldl_append, ih, List.foldl_cons, List.foldl_nil, pollDesc]
    simp only [untouched]
    cases here : (rx.rxRing n).done with
    | true =>
      have next : Function.update (cleared rx.rxRing n) n { rx.rxRing n with status := 0 } =
          cleared rx.rxRing (n + 1) := by
        funext i
        by_cases eq : i = n
        · subst eq; simp [cleared, here]
        · have same : i < n ↔ i < n + 1 := by omega
          simp [cleared, eq, same]
      have made : ({ rx with
          rxRing := cleared rx.rxRing n
          rdt := lastDone rx.rxRing rx.rdt n } : Rx).call n = rx.call n := by
        simp only [Rx.call, untouched]
      simp [next, made, lastDone, here, Rx.due]
    | false =>
      have next : cleared rx.rxRing n = cleared rx.rxRing (n + 1) := by
        funext i
        by_cases eq : i = n
        · subst eq; simp [cleared, here]
        · have same : i < n ↔ i < n + 1 := by omega
          simp [cleared, same]
      simp [next, lastDone, here, Rx.due]

/-- One call of `rtl8139_poll`: every filled descriptor is handed on and
emptied, in the order of the indices. -/
theorem rtl8139Poll_eq {rx : Rx} (ready : rx.driverReady = true) :
    rtl8139Poll rx =
      ({ rx with
          rxRing := cleared rx.rxRing rxDescCount
          rdt := lastDone rx.rxRing rx.rdt rxDescCount },
        (List.range rxDescCount).filterMap rx.due) := by
  rw [rtl8139Poll, if_pos ready, pollDesc_range]

/-! ## Sending -/

structure TxDesc where
  length : UInt16
  cmd : UInt8
  status : UInt8
  deriving DecidableEq

/-- The transmit half of the driver. `tdt` is the register `TDT`. -/
structure Tx where
  driverReady : Bool
  txRing : Nat → TxDesc
  txBufs : Nat → Mem
  txTail : Nat
  tdt : Nat

/-- `rtl8139_init`: fresh memory behind the ring and the buffers. -/
def Tx.init (ring : Nat → TxDesc) (bufs : Nat → Mem) : Tx :=
  { driverReady := true
    txRing := fun i => { ring i with status := 0 }
    txBufs := bufs
    txTail := 0
    tdt := 0 }

/-- `data` are the `len` bytes at the pointer. -/
def nicTx (tx : Tx) (data : List UInt8) : Tx :=
  if !tx.driverReady then tx
  else
    let len := if data.length > txBufSize then txBufSize else data.length
    let next := tx.txTail
    let txTail := (tx.txTail + 1) % txDescCount
    { tx with
      txBufs := Function.update tx.txBufs next (memcpy (tx.txBufs next) 0 (.ofList data) 0 len)
      txRing := Function.update tx.txRing next ⟨len.toUInt16, 0x1B, 0⟩
      txTail := txTail
      tdt := txTail }

/-- The bytes the descriptor `i` describes. -/
def Tx.frame (tx : Tx) (i : Nat) : List UInt8 :=
  (tx.txBufs i).load 0 (tx.txRing i).length.toNat

/-- A frame that fits a buffer goes into the descriptor at the tail as it is;
the other descriptors keep theirs. -/
theorem nicTx_frame {tx : Tx} (ready : tx.driverReady = true) {data : List UInt8}
    (fits : data.length ≤ txBufSize) :
    (nicTx tx data).frame = Function.update tx.frame tx.txTail data := by
  have len : (if data.length > txBufSize then txBufSize else data.length) = data.length :=
    if_neg (Nat.not_lt.mpr fits)
  have word : data.length.toUInt16.toNat = data.length :=
    UInt16.toNat_ofNat_of_lt' (Nat.lt_of_le_of_lt fits (by decide))
  funext i
  simp only [nicTx, ready, len, Bool.not_true, Bool.false_eq_true, if_false, Tx.frame]
  by_cases here : i = tx.txTail
  · subst here
    have whole : (Mem.ofList data).load 0 data.length = data := by
      rw [Mem.load_ofList _ (by omega)]
      simp
    simp only [Function.update_self, word]
    rw [memcpy_eq, whole, Mem.load_store]
  · simp [here, Tx.frame]

end MyOS.E1000
