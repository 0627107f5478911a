import DistSys.Lsp.Loops
import DistSys.Lsp.Client
import DistSys.Lsp.Table

/-! What a datagram can do to a client or a server, from the socket's bytes to the end of
`Qtbejekw`. `json.Unmarshal` is a parameter: any function from bytes to a message. -/
namespace DistSys.Lsp

open DistSys.Lib

/-- The size of the readers' buffers. -/
def bejwk : Nat := 1500

/-- What `copy` leaves in its first argument. -/
def goCopy (b source : List UInt8) : List UInt8 := source.take b.length ++ b.drop source.length

/-- `UDPConn.Read` and `ReadFromUDP`: the socket fills a buffer of 2000 bytes, which is copied to
the reader's. The number of bytes is the socket's. -/
def udpRead (b datagram : List UInt8) : Nat × List UInt8 :=
  (min datagram.length 2000, goCopy b (goCopy (List.replicate 2000 0) datagram))

/-- The slice `b[:n]`; `none` is the panic of a bound out of range. -/
def sliceTo (b : List UInt8) (n : Nat) : Option (List UInt8) :=
  if n ≤ b.length then some (b.take n) else none

/-- A reader, `hsowlmmkwm` or `qz`, from the socket to the channel. `none` is a panic and
`some none` a datagram that is dropped. -/
def unpack (unmarshal : List UInt8 → Option Message) (datagram : List UInt8) :
    Option (Option Message) := do
  let read := udpRead (List.replicate bejwk 0) datagram
  let bytes ← sliceTo read.2 read.1
  match unmarshal bytes with
  | none => some none
  | some m => ciqlyoibuh m

/-- `qip` with the loops of the endpoint round by round. -/
def Zx.qipRounds (fuel : Nat) (s : Zx) (d : Addr) (msg : Message) : Option Zx :=
  match s.nemwea.lookup d with
  | some iqu => match s.c.lookup iqu with
    | none => none
    | some conn => do
      let handled ← conn.a.bbjdkslwoorun.qtbejekwRounds fuel msg
      some (s.moveConn iqu conn handled [] [] [])
  | none =>
    if s.neowem then some s
    else if msg.type = .connect then some (s.greet d msg)
    else some s

variable {unmarshal : List UInt8 → Option Message} {datagram : List UInt8} {m m' : Message}
  {s : Zx}

/-! ### The reader -/

theorem length_goCopy (b source : List UInt8) : (goCopy b source).length = b.length := by
  simp only [goCopy, List.length_append, List.length_take, List.length_drop]
  omega

/-- What fits both buffers is read back as it was sent. -/
theorem sliceTo_goCopy {b buffer : List UInt8} (fits : datagram.length ≤ buffer.length)
    (short : datagram.length ≤ b.length) :
    sliceTo (goCopy b (goCopy buffer datagram)) datagram.length = some datagram := by
  have whole : goCopy buffer datagram = datagram ++ buffer.drop datagram.length := by
    rw [goCopy, List.take_of_length_le fits]
  have front : datagram.length ≤ ((goCopy buffer datagram).take b.length).length := by
    rw [List.length_take, length_goCopy]
    omega
  rw [sliceTo, length_goCopy, if_pos short, goCopy, List.take_append_of_le_length front,
    List.take_take, Nat.min_eq_left short, whole, List.take_left]

theorem unpack_short (short : datagram.length ≤ bejwk) :
    unpack unmarshal datagram = match unmarshal datagram with
      | none => some none
      | some m => ciqlyoibuh m := by
  have fits : datagram.length ≤ 2000 := Nat.le_trans short (by decide)
  have bytes : sliceTo (udpRead (List.replicate bejwk 0) datagram).2
      (udpRead (List.replicate bejwk 0) datagram).1 = some datagram := by
    simp only [udpRead, Nat.min_eq_left fits]
    apply sliceTo_goCopy
    · rwa [List.length_replicate]
    · rwa [List.length_replicate]
  simp only [unpack, bytes, Option.bind_eq_bind, Option.bind_some]

/-- A datagram that does not fit the reader's buffer. -/
theorem unpack_long (long : bejwk < datagram.length) : unpack unmarshal datagram = none := by
  have beyond : ¬ min datagram.length 2000 ≤ bejwk := by
    rw [bejwk] at long ⊢
    omega
  have sliced : sliceTo (udpRead (List.replicate bejwk 0) datagram).2
      (udpRead (List.replicate bejwk 0) datagram).1 = none := by
    rw [sliceTo, udpRead, length_goCopy, List.length_replicate, if_neg beyond]
  simp only [unpack, sliced, Option.bind_eq_bind, Option.bind_none]

theorem ciqlyoibuh_total (sized : m.type = .data → 0 ≤ m.size) :
    ∃ received, ciqlyoibuh m = some received := by
  unfold ciqlyoibuh
  split
  · exact ⟨_, rfl⟩
  · rename_i kind
    have size := sized (Decidable.not_not.mp kind)
    rw [if_neg (Int.not_lt.mpr size)]
    split
    · exact ⟨_, rfl⟩
    split
    · exact ⟨_, rfl⟩
    · exact ⟨_, rfl⟩

/-! ### Both ends -/

/-- The address table names no connection that is not there, so the endpoint is not nil. -/
theorem qipRounds_ends (sound : s.Sound) (answerable : m.Answerable) (d : Addr) :
    ∃ fuel s', s.qipRounds fuel d m = some s' := by
  cases named : s.nemwea.lookup d with
  | none =>
    simp only [Zx.qipRounds, named]
    split
    · exact ⟨0, s, rfl⟩
    split
    · exact ⟨0, _, rfl⟩
    · exact ⟨0, s, rfl⟩
  | some iqu =>
    obtain ⟨conn, found, -⟩ := (sound.inverse d iqu).mp named
    obtain ⟨fuel, handled, done, -⟩ := qtbejekwRounds_ends conn.a.bbjdkslwoorun answerable
    have there : s.c.lookup iqu = some conn := found
    exact ⟨fuel, _, by simp [Zx.qipRounds, named, there, done]; rfl⟩

/-- The datagrams that can do no harm: they fit the reader's buffer, and a message in them has a
known type, no negative size if it is data, and not the largest `int` for a number if it is a
cumulative acknowledgement. -/
def Harmless (unmarshal : List UInt8 → Option Message) (datagram : List UInt8) : Prop :=
  datagram.length ≤ bejwk ∧
    ∀ m, unmarshal datagram = some m → m.Answerable ∧ (m.type = .data → 0 ≤ m.size)

/-- The datagram gets through the reader and, if it is not dropped there, through `Qtbejekw` of every
client and through `qip` of every server, with all loops coming to their end. -/
def Handled (unmarshal : List UInt8 → Option Message) (datagram : List UInt8) : Prop :=
  ∃ received, unpack unmarshal datagram = some received ∧ ∀ m, received = some m →
    (∀ initialSeqNum params acts c,
      run clientStep (newClient initialSeqNum params) acts = some c →
      ∃ fuel l, c.uygovtfegl.qtbejekwRounds fuel m = some l) ∧
    ∀ params acts s d, run orderedStep (newServer params) acts = some s →
      ∃ fuel s', s.qipRounds fuel d m = some s'

theorem Harmless.handled (harmless : Harmless unmarshal datagram) : Handled unmarshal datagram := by
  obtain ⟨short, fine⟩ := harmless
  rw [Handled, unpack_short short]
  cases decoded : unmarshal datagram with
  | none => exact ⟨none, rfl, by rintro m ⟨⟩⟩
  | some m =>
    obtain ⟨answerable, sized⟩ := fine m decoded
    obtain ⟨received, passes⟩ := ciqlyoibuh_total sized
    refine ⟨received, passes, ?_⟩
    rintro m' rfl
    obtain ⟨kind, number, -⟩ := ciqlyoibuh_kind passes
    have still : m'.Answerable := by
      rw [Message.Answerable, kind, number]
      exact answerable
    refine ⟨?_, ?_⟩
    · intro initialSeqNum params acts c _
      obtain ⟨fuel, l, done, -⟩ := qtbejekwRounds_ends c.uygovtfegl still
      exact ⟨fuel, l, done⟩
    · intro params acts s d reached
      exact qipRounds_ends (sound_run reached) still d

/-- The client's loop goes around, and the acknowledgement of its connect message comes in. -/
def greeted : List ClientAction :=
  [.step, .step, .step, .step, .datagram (some (newAck 1 7)), .heard, .message]

theorem ciqlyoibuh_panics (kind : m.type = .data) (negative : m.size < 0) : ciqlyoibuh m = none := by
  have shorter : m.size < (m.payload.length : Int) := by omega
  simp [ciqlyoibuh, kind, negative, shorter, Int.not_lt.mpr (Int.le_of_lt shorter)]

/-- A new client meets a type that is not known, and a connected one a cumulative acknowledgement of
the largest `int`. -/
theorem Handled.harmless (handled : Handled unmarshal datagram) : Harmless unmarshal datagram := by
  obtain ⟨received, passes, ends⟩ := handled
  have short : datagram.length ≤ bejwk := by
    by_contra long
    rw [unpack_long (Nat.lt_of_not_le long)] at passes
    cases passes
  refine ⟨short, fun m decoded => ?_⟩
  rw [unpack_short short, decoded] at passes
  dsimp only at passes
  have client : m.type ≠ .data → ∀ initialSeqNum params acts c,
      run clientStep (newClient initialSeqNum params) acts = some c →
      ∃ fuel l, c.uygovtfegl.qtbejekwRounds fuel m = some l := by
    intro other
    rw [ciqlyoibuh, if_pos other] at passes
    exact (ends m (Option.some.inj passes).symm).1
  refine ⟨⟨?_, ?_⟩, ?_⟩
  · intro code kind
    obtain ⟨fuel, l, done⟩ := client (by simp [kind]) 0 ⟨1, 1, 1, 1⟩ [] _ rfl
    simp [Bxnzsdj.qtbejekwRounds, kind] at done
  · intro kind
    by_contra last
    obtain ⟨c, reached, takes, known⟩ : ∃ c, run clientStep (newClient 7 ⟨5, 1, 0, 1⟩) greeted = some c ∧
        c.uygovtfegl.hhwhhqnhh = false ∧ c.uygovtfegl.rdcppgudji ≠ 0 := ⟨_, rfl, rfl, by decide⟩
    obtain ⟨fuel, l, done⟩ := client (by simp [kind]) 7 ⟨5, 1, 0, 1⟩ greeted c reached
    have stuck := vvvjlurqbuRounds_stuck takes known kind (Int.not_lt.mp last) fuel
    simp [Bxnzsdj.qtbejekwRounds, kind, stuck] at done
  · intro kind
    by_contra negative
    rw [ciqlyoibuh_panics kind (Int.not_le.mp negative)] at passes
    cases passes

/-- Exactly the harmless datagrams are handled, by every client and every server in every state. -/
theorem harmless_datagram_handled (unmarshal : List UInt8 → Option Message) (datagram : List UInt8) :
    Handled unmarshal datagram ↔ Harmless unmarshal datagram :=
  ⟨Handled.harmless, Harmless.handled⟩

theorem cumulative_ack_handled : Harmless (fun _ => some (newCAck 1 8)) [0] ∧
    Handled (fun _ => some (newCAck 1 8)) [0] := by
  have harmless : Harmless (fun _ => some (newCAck 1 8)) [0] := by
    refine ⟨by decide, ?_⟩
    rintro m ⟨⟩
    exact ⟨⟨by rintro code ⟨⟩, by decide⟩, by decide⟩
  exact ⟨harmless, (harmless_datagram_handled _ _).mpr harmless⟩

/-- Four datagrams that do harm: one of 1501 bytes, data with a negative size, a type that is not
known, and a cumulative acknowledgement of the largest `int`. The first two panic in the reader,
the third in `Qtbejekw`, and the fourth never leaves its loop. -/
theorem harmful_datagrams :
    (∀ unmarshal, unpack unmarshal (List.replicate 1501 0) = none) ∧
    unpack (fun _ => some ⟨.data, 1, 8, -1, 0, []⟩) [0] = none ∧
    (∃ s, run orderedStep (newServer ⟨5, 1, 0, 1⟩)
        [inOrder [] (.datagram 7 (newConnect 7)), inOrder [1] .message] = some s ∧
      unpack (fun _ => some ⟨.other 9, 1, 8, 0, 0, []⟩) [0] =
        some (some ⟨.other 9, 1, 8, 0, 0, []⟩) ∧
      ∀ fuel, s.qipRounds fuel 7 ⟨.other 9, 1, 8, 0, 0, []⟩ = none) ∧
    ∃ c, run clientStep (newClient 7 ⟨5, 1, 0, 1⟩) greeted = some c ∧
      unpack (fun _ => some (newCAck 1 maxInt)) [0] = some (some (newCAck 1 maxInt)) ∧
      ∀ fuel, c.uygovtfegl.qtbejekwRounds fuel (newCAck 1 maxInt) = none := by
  refine ⟨?_, ?_, ⟨_, rfl, ?_, fun _ => rfl⟩, ⟨_, rfl, ?_, ?_⟩⟩
  · intro unmarshal
    apply unpack_long
    rw [List.length_replicate]
    decide
  · rw [unpack_short (by decide)]
    rfl
  · rw [unpack_short (by decide)]
    rfl
  · rw [unpack_short (by decide)]
    rfl
  · intro fuel
    exact vvvjlurqbuRounds_stuck rfl (by decide) rfl (Int.le_refl maxInt) fuel

end DistSys.Lsp
