import MyOS.Base.BoundedQueue
import MyOS.Tcp.Step

/-!
# The receive buffer

`rx_buf` and `rx_len` of one socket under `rx_data_into_buf` and `tcp_recv`: a
queue of at most `rx_cap` bytes.
-/

namespace MyOS.Buffer

open BoundedQueue Runs

/-- `rx_buf[0..rx_len)` -/
def content (s : SockRef) (k : Kernel) : List UInt8 := k.tcp.rb.load 0 (k.sock s).rxLen.toNat

/-- What `tcp_connect` leaves and every call keeps: no length below 0 or above the capacity. -/
structure Bounded (s : SockRef) (cap : Int) (k : Kernel) : Prop where
  capacity : (k.sock s).rxCap = cap
  nonneg : 0 ≤ (k.sock s).rxLen
  bounded : (k.sock s).rxLen ≤ cap

section
variable {s : SockRef} {cap : Int} {k : Kernel}

theorem length_content (s : SockRef) (k : Kernel) : (content s k).length = (k.sock s).rxLen.toNat :=
  Mem.length_load ..

theorem rxRoom_eq (b : Bounded s cap k) (pl : List UInt8) :
    rxRoom (k.sock s) pl.length = min (pl.length : Int) (cap - (k.sock s).rxLen) := by
  simp only [rxRoom, b.capacity]
  split <;> omega

theorem bounded_rxDataIntoBuf (b : Bounded s cap k) (pl : List UInt8) :
    Bounded s cap (rxDataIntoBuf k s pl) := by
  have nonneg := b.nonneg
  have bounded := b.bounded
  rw [rxDataIntoBuf, rxRoom_eq b]
  split
  · constructor
    · rw [setSock_same]
      exact b.capacity
    · rw [setSock_same]
      dsimp only
      omega
    · rw [setSock_same]
      dsimp only
      omega
  · exact b

/-- New bytes go behind those buffered, as far as there is room. -/
theorem content_rxDataIntoBuf (b : Bounded s cap k) (pl : List UInt8) :
    content s (rxDataIntoBuf k s pl) =
      content s k ++ pl.take (cap - (k.sock s).rxLen).toNat := by
  have nonneg := b.nonneg
  have bounded := b.bounded
  rw [rxDataIntoBuf, rxRoom_eq b]
  generalize len : (k.sock s).rxLen = rxLen at *
  split
  · rename_i some
    have loaded : (Mem.ofList pl).load 0 (min (pl.length : Int) (cap - rxLen)).toNat =
        pl.take (cap - rxLen).toNat := by
      rw [Mem.load_ofList _ (by omega), List.drop_zero, List.take_eq_take_iff]
      omega
    have size : (rxLen + min (pl.length : Int) (cap - rxLen)).toNat =
        rxLen.toNat + (pl.take (cap - rxLen).toNat).length := by
      rw [List.length_take]
      omega
    simp only [content, setSock_same, setSock_rb, len, memcpy_eq, loaded, size]
    exact Mem.load_store_append ..
  · have none : pl.take (cap - rxLen).toNat = [] := by
      rw [List.take_eq_nil_iff, ← List.length_eq_zero_iff]
      omega
    rw [none, List.append_nil]

/-- `tcp_recv` takes the front off the buffer. -/
theorem tcpRecv_content (s : SockRef) (k : Kernel) (maxlen : Nat) :
    (tcpRecv k s maxlen).2 = (content s k).take maxlen ∧
      content s (tcpRecv k s maxlen).1 = (content s k).drop maxlen := by
  have whole := length_content s k
  simp only [tcpRecv]
  split
  · rename_i none
    have empty : content s k = [] := by
      rw [← List.length_eq_zero_iff]
      omega
    rw [empty, List.take_nil, List.drop_nil]
    exact ⟨rfl, rfl⟩
  · generalize taken :
      (if (maxlen : Int) > (k.sock s).rxLen then (k.sock s).rxLen.toNat else maxlen) = m
    have least : m = min maxlen (k.sock s).rxLen.toNat := by
      rw [← taken]
      split <;> omega
    have rest : ((k.sock s).rxLen - m).toNat = (k.sock s).rxLen.toNat - m := by omega
    have parts : content s k =
        k.tcp.rb.load 0 m ++ k.tcp.rb.load m ((k.sock s).rxLen.toNat - m) := by
      have split := Mem.load_add k.tcp.rb 0 m ((k.sock s).rxLen.toNat - m)
      rw [Nat.zero_add, Nat.add_sub_cancel' (by omega)] at split
      exact split
    have front : (content s k).take maxlen = k.tcp.rb.load 0 m := by
      have cut : (content s k).take maxlen = (content s k).take m :=
        List.take_eq_take_iff.mpr (by omega)
      rw [cut, parts]
      exact List.take_left' (Mem.length_load ..)
    have back : (content s k).drop maxlen = k.tcp.rb.load m ((k.sock s).rxLen.toNat - m) := by
      have both := List.take_append_drop maxlen (content s k)
      rw [front, parts] at both
      rw [parts]
      exact List.append_cancel_left both
    have shifted := Mem.load_store k.tcp.rb 0 (k.tcp.rb.load m ((k.sock s).rxLen.toNat - m))
    rw [Mem.length_load] at shifted
    refine ⟨front.symm, ?_⟩
    simp only [content, setSock_same, setSock_rb, memmove_eq, rest, shifted]
    exact back.symm

theorem bounded_tcpRecv (b : Bounded s cap k) (maxlen : Nat) :
    Bounded s cap (tcpRecv k s maxlen).1 := by
  have nonneg := b.nonneg
  have bounded := b.bounded
  simp only [tcpRecv]
  split
  · exact b
  · constructor
    · rw [setSock_same]
      exact b.capacity
    · rw [setSock_same]
      dsimp only
      split <;> omega
    · rw [setSock_same]
      dsimp only
      omega

end

/-! ## Runs of both calls -/

inductive Call
  | append (chunk : List UInt8)
  | recv (maxlen : Nat)

/-- What has come out of the socket so far, and what has gone in. -/
structure Use where
  kernel : Kernel
  returned : List UInt8
  appended : List UInt8

/-- A chunk counts as far as it has lengthened the buffer. -/
def step (s : SockRef) (u : Use) : Call → Use
  | .append chunk =>
    let k := rxDataIntoBuf u.kernel s chunk
    ⟨k, u.returned, u.appended ++ (content s k).drop (content s u.kernel).length⟩
  | .recv maxlen =>
    let (k, out) := tcpRecv u.kernel s maxlen
    ⟨k, u.returned ++ out, u.appended⟩

def view (s : SockRef) (u : Use) : Queue UInt8 := ⟨content s u.kernel, u.appended, u.returned⟩

def Call.op : Call → Op UInt8
  | .append chunk => .push chunk
  | .recv maxlen => .pop maxlen

section
variable {s : SockRef} {cap : Int} {u : Use}

theorem room_eq (b : Bounded s cap u.kernel) :
    (cap - (u.kernel.sock s).rxLen).toNat = cap.toNat - (content s u.kernel).length := by
  have nonneg := b.nonneg
  rw [length_content]
  omega

/-- The socket is the bounded queue. -/
theorem step_simulates (b : Bounded s cap u.kernel) (call : Call) :
    view s (step s u call) = (view s u).step cap.toNat call.op := by
  cases call with
  | append chunk =>
    have grown := content_rxDataIntoBuf b chunk
    rw [room_eq b] at grown
    simp only [view, step, Call.op, Queue.step, grown, List.drop_left]
  | recv maxlen =>
    obtain ⟨out, kept⟩ := tcpRecv_content s u.kernel maxlen
    simp only [view, step, Call.op, Queue.step, out, kept]

theorem step_bounded (b : Bounded s cap u.kernel) (call : Call) :
    Bounded s cap (step s u call).kernel := by
  cases call with
  | append chunk => exact bounded_rxDataIntoBuf b chunk
  | recv maxlen => exact bounded_tcpRecv b maxlen

end

/-- An append adds the longest prefix that fits, a receive takes what is in front. -/
def Serves (s : SockRef) (cap : Int) (u : Use) : Call → Prop
  | .append chunk => ∃ p, Longest (cap - (u.kernel.sock s).rxLen).toNat chunk p ∧
      content s (rxDataIntoBuf u.kernel s chunk) = content s u.kernel ++ p
  | .recv maxlen => (tcpRecv u.kernel s maxlen).2 = (content s u.kernel).take maxlen ∧
      content s (tcpRecv u.kernel s maxlen).1 = (content s u.kernel).drop maxlen

theorem serves (s : SockRef) {cap : Int} {u : Use} (b : Bounded s cap u.kernel) (call : Call) :
    Serves s cap u call := by
  cases call with
  | append chunk => exact ⟨_, longest_take .., content_rxDataIntoBuf b chunk⟩
  | recv maxlen => exact tcpRecv_content s u.kernel maxlen

/-- From an empty buffer on, whatever is called: the length stays between 0 and
the capacity, each call does what a queue does, and what has been returned is
what was appended, up to the bytes still buffered. -/
theorem queue_along (k : Kernel) (s : SockRef) (capacity : 0 ≤ (k.sock s).rxCap)
    (fresh : (k.sock s).rxLen = 0) (calls : List Call) :
    Along (step s) (fun u => 0 ≤ (u.kernel.sock s).rxLen ∧
        (u.kernel.sock s).rxLen ≤ (k.sock s).rxCap ∧ (u.kernel.sock s).rxCap = (k.sock s).rxCap ∧
        u.returned ++ content s u.kernel = u.appended) ⟨k, [], []⟩ calls ∧
      Steps (step s) (Serves s (k.sock s).rxCap) ⟨k, [], []⟩ calls := by
  have start : Bounded s (k.sock s).rxCap k := by
    refine ⟨rfl, ?_, ?_⟩
    · rw [fresh]
    · rw [fresh]
      exact capacity
  have nothing : content s k = [] := by
    rw [← List.length_eq_zero_iff, length_content, fresh]
    rfl
  constructor
  · have sound : Queue.Sound (k.sock s).rxCap.toNat (view s ⟨k, [], []⟩) := by
      simp only [view, nothing]
      exact Queue.sound_empty _
    refine along_mono (Queue.along_sound (I := fun u => Bounded s (k.sock s).rxCap u.kernel)
      (fun u call b => step_bounded b call) (fun u call b => step_simulates b call)
      start sound calls) ?_
    rintro u ⟨b, sound⟩
    exact ⟨b.nonneg, b.bounded, b.capacity, sound.conserved⟩
  · exact steps_keep (I := fun u => Bounded s (k.sock s).rxCap u.kernel)
      (fun u call b => step_bounded b call) (fun u call b => serves s b call) start

/-- Room for three bytes, and four that come. -/
theorem queue_along_full :
    let k := Kernel.boot.setSock .gSock { TcpSocket.zero with rxCap := 3 }
    let calls : List Call := [.append [1, 2, 3, 4], .recv 2, .append [5]]
    Along (step .gSock) (fun u => 0 ≤ (u.kernel.sock .gSock).rxLen ∧
        (u.kernel.sock .gSock).rxLen ≤ (k.sock .gSock).rxCap ∧
        (u.kernel.sock .gSock).rxCap = (k.sock .gSock).rxCap ∧
        u.returned ++ content .gSock u.kernel = u.appended) ⟨k, [], []⟩ calls ∧
      Steps (step .gSock) (Serves .gSock (k.sock .gSock).rxCap) ⟨k, [], []⟩ calls :=
  queue_along _ .gSock (by decide) rfl _

end MyOS.Buffer
