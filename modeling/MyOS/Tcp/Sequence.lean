import MyOS.Base.Runs
import MyOS.Base.SeqStream
import MyOS.Tcp.Sends

/-!
# The sequence numbers of one connection

`snd_nxt` is advanced by hand, after a segment has been built and in four
different places. The segments of a connection still follow each other without
gap or overlap, and behind its one FIN come only acknowledgements.
-/

namespace MyOS.Sequence

open Runs SeqStream

/-- The segment in one call of `net_send_ip`. -/
def segmentOf (p : IpSend) : Segment := tcpDecode (.ofList p.payload) p.payload.length

/-- The numbers a segment uses up: one for each byte, one for SYN, one for FIN. -/
def space (th : Segment) : Nat :=
  th.payload.length + (if th.flags &&& 0x02 ≠ 0 then 1 else 0) + if th.fin then 1 else 0

/-- Neither data nor FIN. -/
def Quiet (th : Segment) : Prop := th.payload = [] ∧ th.fin = false

abbrev TilesTo (start : UInt32) (ths : List Segment) (stop : UInt32) : Prop :=
  Tiles Segment.seq space start ths stop

/-- Behind a FIN everything is quiet. -/
def FinLast (ths : List Segment) : Prop := ths.Pairwise fun th later => th.fin = true → Quiet later

/-- The segments sent from `k` to `k'`. -/
def sentSince (k k' : Kernel) : List Segment :=
  (k'.tcp.sent.drop k.tcp.sent.length).map segmentOf

/-- A call that belongs to one connection. -/
def Within : TcpEvent → Prop
  | .connect .. => False
  | .send data => data.length ≤ 1460
  | _ => True

/-- A pure acknowledgement carries the `snd_nxt` of the call that sends it. -/
def AcksCurrent (k : Kernel) (e : TcpEvent) : Prop :=
  ∀ th ∈ sentSince k (tcpStep .gSock k e), space th = 0 → th.seq = (k.sock .gSock).sndNxt

theorem segmentOf_ipSend (o : Outgoing) : segmentOf o.ipSend = o.segment := by
  have holds : (Mem.ofList (tcpSegment o.sock o.flags o.payload)).Holds 0
      (tcpSegment o.sock o.flags o.payload) := by
    simpa using Mem.holds_ofList (tcpSegment o.sock o.flags o.payload) []
  have decoded := (tcpDecode_segment holds).2
  rw [segmentOf, Outgoing.ipSend, length_tcpSegment]
  exact_mod_cast decoded

theorem sentSince_emits {k k' : Kernel} {os : List Outgoing} (h : Emits k k' os) :
    sentSince k k' = os.map Outgoing.segment := by
  rw [sentSince, h.sent, List.drop_left, List.map_map]
  exact List.map_congr_left fun o _ => segmentOf_ipSend o

/-! ## One call -/

/-- The connection can still send a FIN. -/
def Open (g : TcpSocket) : Prop := g.state = .synSent ∨ g.state = .established

/-- What a call may do to the numbers: `ths` goes out while `g` becomes `g'`. -/
structure Obeys (g : TcpSocket) (ths : List Segment) (g' : TcpSocket) : Prop where
  tiles : TilesTo g.sndNxt ths g'.sndNxt
  iss : g'.sndIss = g.sndIss
  current : ∀ th ∈ ths, space th = 0 → th.seq = g.sndNxt
  finLast : FinLast ths
  closed : ¬ Open g → ∀ th ∈ ths, Quiet th
  stays : Open g' → Open g ∧ ∀ th ∈ ths, th.fin = false

/-- A pure acknowledgement of the number `nxt`. -/
def IsAck (nxt : UInt32) (th : Segment) : Prop := th.payload = [] ∧ th.flags = 0x10 ∧ th.seq = nxt

theorem IsAck.quiet {nxt : UInt32} {th : Segment} (h : IsAck nxt th) : Quiet th := by
  obtain ⟨empty, flags, -⟩ := h
  refine ⟨empty, ?_⟩
  rw [Segment.fin, flags]
  rfl

theorem IsAck.space {nxt : UInt32} {th : Segment} (h : IsAck nxt th) : space th = 0 := by
  obtain ⟨empty, flags, -⟩ := h
  rw [Sequence.space, Segment.fin, empty, flags]
  rfl

namespace Obeys

variable {g g' : TcpSocket} {ths : List Segment}

theorem acks (all : ∀ th ∈ ths, IsAck g.sndNxt th) (number : g'.sndNxt = g.sndNxt)
    (iss : g'.sndIss = g.sndIss) (stays : Open g' → Open g) : Obeys g ths g' := by
  constructor
  · rw [number]
    apply tiles_empty
    intro th mem
    exact ⟨(all th mem).2.2, (all th mem).space⟩
  · exact iss
  · intro th mem _
    exact (all th mem).2.2
  · apply List.pairwise_of_forall_mem_list
    intro th _ later mem _
    exact (all later mem).quiet
  · intro _ th mem
    exact (all th mem).quiet
  · intro after
    exact ⟨stays after, fun th mem => (all th mem).quiet.2⟩

theorem silent (number : g'.sndNxt = g.sndNxt) (iss : g'.sndIss = g.sndIss)
    (stays : Open g' → Open g) : Obeys g [] g' :=
  acks (fun _ mem => absurd mem List.not_mem_nil) number iss stays

/-- Acknowledgements, then the FIN, which ends the connection's own stream. -/
theorem fin {th : Segment} (all : ∀ th ∈ ths, IsAck g.sndNxt th) (seq : th.seq = g.sndNxt)
    (empty : th.payload = []) (flags : th.flags = 0x11) (opened : Open g)
    (number : g'.sndNxt = g.sndNxt + 1) (iss : g'.sndIss = g.sndIss) (ended : ¬ Open g') :
    Obeys g (ths ++ [th]) g' := by
  have one : space th = 1 := by
    rw [space, Segment.fin, empty, flags]
    rfl
  have before : Obeys g ths g := acks all rfl rfl id
  constructor
  · apply before.tiles.append
    refine ⟨seq, ?_⟩
    rw [one]
    exact number.symm
  · exact iss
  · intro later mem _
    rcases List.mem_append.mp mem with ack | last
    · exact (all later ack).2.2
    · rw [List.mem_singleton.mp last, seq]
  · apply List.pairwise_append.mpr
    refine ⟨before.finLast, List.pairwise_singleton .., ?_⟩
    intro ack mem _ _ isFin
    rw [(all ack mem).quiet.2] at isFin
    cases isFin
  · intro closed
    exact absurd opened closed
  · intro after
    exact absurd after ended

/-- One segment of data. -/
theorem data {th : Segment} (seq : th.seq = g.sndNxt)
    (flags : th.flags = 0x18) (opened : Open g)
    (number : g'.sndNxt = g.sndNxt + th.payload.length.toUInt32) (iss : g'.sndIss = g.sndIss) :
    Obeys g [th] g' := by
  have noFin : th.fin = false := by
    rw [Segment.fin, flags]
    rfl
  have size : space th = th.payload.length := by
    rw [space, noFin, flags]
    rfl
  constructor
  · refine ⟨seq, ?_⟩
    rw [size]
    exact number.symm
  · exact iss
  · intro later mem _
    rw [List.mem_singleton.mp mem, seq]
  · exact List.pairwise_singleton ..
  · intro closed
    exact absurd opened closed
  · intro _
    refine ⟨opened, ?_⟩
    intro later mem
    rw [List.mem_singleton.mp mem, noFin]

end Obeys

theorem obeys_onSegment (g : TcpSocket) (th : Segment) :
    Obeys g ((g.answers th).map Outgoing.segment) (g.onSegment th) := by
  have ack (h : TcpSocket) (same : h.sndNxt = g.sndNxt) :
      ∀ out ∈ [Outgoing.segment ⟨h, 0x10, []⟩], IsAck g.sndNxt out := by
    intro out mem
    rw [List.mem_singleton.mp mem]
    exact ⟨rfl, rfl, same⟩
  unfold TcpSocket.answers TcpSocket.onSegment
  split
  · exact .silent rfl rfl (by simp [Open])
  · cases state : g.state with
    | closed | timeWait => exact .silent rfl rfl id
    | synSent =>
      dsimp only
      split
      · refine .acks (ack _ rfl) rfl rfl ?_
        exact fun _ => .inl state
      · exact .silent rfl rfl id
    | established =>
      have opened : Open g := .inr state
      have same : (g.afterData th).sndNxt = g.sndNxt := by rw [TcpSocket.afterData_frame]
      have iss : (g.afterData th).sndIss = g.sndIss := by rw [TcpSocket.afterData_frame]
      -- the acknowledgement of the data, if there is any to take
      have first : ∀ out ∈ (if g.inOrder th then [Outgoing.mk (g.takeData th) 0x10 []] else []).map
          Outgoing.segment, IsAck g.sndNxt out := by
        intro out mem
        split at mem
        · exact ack (g.takeData th) rfl out mem
        · cases mem
      dsimp only
      generalize (if g.inOrder th then [Outgoing.mk (g.takeData th) 0x10 []] else []) = firsts
        at first ⊢
      by_cases fin : th.fin = true
      · rw [if_pos fin, if_pos fin, List.append_cons, List.map_append]
        refine .fin ?_ same rfl rfl opened ?_ iss ?_
        · intro out mem
          rw [List.map_append] at mem
          rcases List.mem_append.mp mem with data | last
          · exact first out data
          · exact ack { g.afterData th with rcvNxt := (g.afterData th).rcvNxt + 1 } same out last
        · rw [TcpSocket.takeFin, same]
        · simp [Open, TcpSocket.takeFin]
      · rw [if_neg fin, if_neg fin, List.append_nil]
        exact .acks first same iss fun _ => opened
    | finWait1 =>
      dsimp only
      split
      · exact .silent rfl rfl (by simp [Open])
      · exact .silent rfl rfl id
    | finWait2 =>
      dsimp only
      split
      · refine .acks (ack _ rfl) rfl rfl ?_
        simp [Open]
      · exact .silent rfl rfl id

theorem obeys_onSend (g : TcpSocket) (data : List UInt8) :
    Obeys g ((g.sends data).map Outgoing.segment) (g.onSend data) := by
  unfold TcpSocket.sends TcpSocket.onSend
  by_cases est : g.state = .established
  · rw [if_pos est]
    have opened : Open g := .inr est
    by_cases empty : data = []
    · subst empty
      rw [if_neg (fun both => both.2 rfl)]
      exact .silent (UInt32.add_zero _) rfl fun _ => opened
    · rw [if_pos ⟨est, empty⟩]
      exact .data rfl rfl opened rfl rfl
  · rw [if_neg est, if_neg (fun both => est both.1)]
    exact .silent rfl rfl id

theorem obeys_onClose (g : TcpSocket) :
    Obeys g (g.closes.map Outgoing.segment) g.onClose := by
  unfold TcpSocket.closes TcpSocket.onClose
  cases used : g.inUse with
  | false =>
    simp only [Bool.false_eq_true, false_and, ↓reduceIte]
    exact .silent rfl rfl id
  | true =>
    simp only [true_and, reduceCtorEq, ↓reduceIte]
    by_cases est : g.state = .established
    · rw [if_pos est, if_pos est]
      have none : ∀ th ∈ ([] : List Segment), IsAck g.sndNxt th :=
        fun _ mem => absurd mem List.not_mem_nil
      exact .fin none rfl rfl rfl (.inr est) rfl rfl (by simp [Open])
    · rw [if_neg est, if_neg est]
      exact .silent rfl rfl (by simp [Open])

/-- What a call on `g_sock` sends, and what it does to the numbers. -/
theorem tcpStep_obeys (k : Kernel) {e : TcpEvent} (within : Within e) :
    ∃ os, Emits k (tcpStep .gSock k e) os ∧
      Obeys (k.sock .gSock) (os.map Outgoing.segment) ((tcpStep .gSock k e).sock .gSock) := by
  rw [sock_tcpStep]
  cases e with
  | connect => exact within.elim
  | rx ipPkt ipLen srcIp dstIp =>
    refine ⟨_, tcpOnRx_emits k ipPkt ipLen srcIp dstIp, ?_⟩
    dsimp only
    split
    · exact obeys_onSegment ..
    · exact .silent rfl rfl id
  | send data => exact ⟨_, tcpSend_emits k .gSock data, obeys_onSend ..⟩
  | recv maxlen =>
    refine ⟨_, tcpRecv_emits k .gSock maxlen, ?_⟩
    dsimp only
    rw [TcpSocket.onRecv_frame]
    exact .silent rfl rfl id
  | close => exact ⟨_, tcpClose_emits k .gSock, obeys_onClose ..⟩

/-! ## A connection -/

/-- What has been sent on a connection whose record is now `g`. -/
structure Story (ths : List Segment) (g : TcpSocket) : Prop where
  tiles : TilesTo g.sndIss ths g.sndNxt
  finLast : FinLast ths
  unended : Open g → ∀ th ∈ ths, th.fin = false

theorem story_syn {th : Segment} {g : TcpSocket} (empty : th.payload = []) (flags : th.flags = 0x02)
    (seq : th.seq = g.sndIss) (number : g.sndNxt = g.sndIss + 1) : Story [th] g := by
  have noFin : th.fin = false := by
    rw [Segment.fin, flags]
    rfl
  have one : space th = 1 := by
    rw [space, noFin, empty, flags]
    rfl
  constructor
  · refine ⟨seq, ?_⟩
    rw [one]
    exact number.symm
  · exact List.pairwise_singleton ..
  · intro _ later mem
    rw [List.mem_singleton.mp mem, noFin]

theorem Story.extend {ths more : List Segment} {g g' : TcpSocket} (story : Story ths g)
    (next : Obeys g more g') : Story (ths ++ more) g' := by
  constructor
  · rw [next.iss]
    exact story.tiles.append next.tiles
  · apply List.pairwise_append.mpr
    refine ⟨story.finLast, next.finLast, ?_⟩
    intro th mem later new isFin
    apply next.closed _ later new
    intro opened
    rw [story.unended opened th mem] at isFin
    cases isFin
  · intro after
    obtain ⟨before, none⟩ := next.stays after
    intro th mem
    rcases List.mem_append.mp mem with old | new
    · exact story.unended before th old
    · exact none th new

theorem foldl_tcpStep_story {k₀ k : Kernel} {os : List Outgoing} {es : List TcpEvent}
    (emits : Emits k₀ k os) (story : Story (os.map Outgoing.segment) (k.sock .gSock))
    (within : ∀ e ∈ es, Within e) :
    Story (sentSince k₀ (es.foldl (tcpStep .gSock) k))
      ((es.foldl (tcpStep .gSock) k).sock .gSock) := by
  induction es generalizing k os with
  | nil =>
    rw [List.foldl_nil, sentSince_emits emits]
    exact story
  | cons e es ih =>
    obtain ⟨more, sent, next⟩ := tcpStep_obeys k (within e List.mem_cons_self)
    apply ih (emits.trans sent)
    · rw [List.map_append]
      exact story.extend next
    · intro d mem
      exact within d (List.mem_cons_of_mem e mem)

theorem steps_acksCurrent {k : Kernel} {es : List TcpEvent} (within : ∀ e ∈ es, Within e) :
    Steps (tcpStep .gSock) AcksCurrent k es := by
  induction es generalizing k with
  | nil => trivial
  | cons e es ih =>
    obtain ⟨os, sent, obeys⟩ := tcpStep_obeys k (within e List.mem_cons_self)
    constructor
    · intro th mem
      rw [sentSince_emits sent] at mem
      exact obeys.current th mem
    · exact ih fun d mem => within d (List.mem_cons_of_mem e mem)

theorem FinLast.one_fin {ths : List Segment} (last : FinLast ths) : ths.countP Segment.fin ≤ 1 := by
  induction ths with
  | nil => exact Nat.zero_le 1
  | cons th ths ih =>
    obtain ⟨here, rest⟩ := List.pairwise_cons.mp last
    by_cases isFin : th.fin = true
    · have none : ths.countP Segment.fin = 0 := by
        apply List.countP_eq_zero.mpr
        intro later mem
        simp [(here later mem isFin).2]
      rw [List.countP_cons_of_pos isFin, none]
    · rw [List.countP_cons_of_neg isFin]
      exact ih rest

/-- Whatever the peer and the owner of `g_sock` do after `tcp_connect`: the SYN,
the data and the FIN lie one behind the other from `snd_iss` to `snd_nxt`, there
is at most one FIN with nothing but acknowledgements behind it, and these carry
the `snd_nxt` of their time. -/
theorem sends_tile {k : Kernel} (idle : (k.sock .gSock).inUse = false) (dstIp : UInt32)
    (dstPort srcPort : UInt16) {es : List TcpEvent} (within : ∀ e ∈ es, Within e) :
    let start := (tcpConnect k .gSock dstIp dstPort srcPort).1
    let k' := es.foldl (tcpStep .gSock) start
    TilesTo (k'.sock .gSock).sndIss (sentSince k k') (k'.sock .gSock).sndNxt ∧
      (sentSince k k').countP Segment.fin ≤ 1 ∧ FinLast (sentSince k k') ∧
      Steps (tcpStep .gSock) AcksCurrent start es := by
  intro start k'
  have syn : Emits k start [⟨freshSocket k dstIp dstPort srcPort, 0x02, []⟩] :=
    tcpConnect_emits k .gSock idle
  have record : start.sock .gSock = connected k dstIp dstPort srcPort :=
    (sock_tcpConnect k .gSock idle).1
  have first : Story [Outgoing.segment ⟨freshSocket k dstIp dstPort srcPort, 0x02, []⟩]
      (start.sock .gSock) := by
    rw [record]
    exact story_syn rfl rfl rfl rfl
  have story : Story (sentSince k k') (k'.sock .gSock) := foldl_tcpStep_story syn first within
  exact ⟨story.tiles, story.finLast.one_fin, story.finLast, steps_acksCurrent within⟩

/-- The peer accepts, two bytes are sent, and the connection is closed. -/
def exchange : List TcpEvent :=
  [.rx (.ofList (peerBytes 80 5000 7 0x12341001 0x12 [])) 20 0x0A000202 0, .send [1, 2], .close]

theorem sends_tile_exchange :
    (sentSince .boot (exchange.foldl (tcpStep .gSock)
      (tcpConnect .boot .gSock 0x0A000202 80 5000).1)).countP Segment.fin ≤ 1 := by
  have within : ∀ e ∈ exchange, Within e := by
    intro e mem
    simp only [exchange, List.mem_cons, List.not_mem_nil, or_false] at mem
    rcases mem with rfl | rfl | rfl
    · trivial
    · exact Nat.le_of_ble_eq_true rfl
    · trivial
  exact (sends_tile (k := .boot) rfl 0x0A000202 80 5000 within).2.1

end MyOS.Sequence
