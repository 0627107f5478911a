import DistSys.Lsp.Refine
import DistSys.Lib.Runs

/-! Two ends and the network between them. The network keeps every datagram that was ever sent,
and any of them may arrive at any time: so it loses, duplicates, delays and reorders them, but
makes none up. -/
namespace DistSys.Lsp

open Function (update)
open DistSys.Lib

inductive Side where
  | client
  | server
  deriving DecidableEq, Repr

def Side.other : Side → Side
  | .client => .server
  | .server => .client

@[simp] theorem Side.other_ne (side : Side) : side.other ≠ side := by
  cases side <;> decide

@[simp] theorem Side.other_other (side : Side) : side.other.other = side := by
  cases side <;> rfl

theorem Side.eq_other {side s : Side} (other : s ≠ side) : s = side.other := by
  cases side <;> cases s <;> first | rfl | contradiction

/-- The server has no end before a connect message has come. `net` is what each side has handed
to the network, `wrote` and `read` are the payloads that went in and out at each side. -/
structure Link where
  ends : Side → Option Bxnzsdj
  net : Side → List Message
  wrote : Side → List Payload
  read : Side → List Payload

inductive LinkAction where
  | write (side : Side) (payload : Payload)
  | read (side : Side)
  | tick (side : Side)
  | flush (side : Side)
  /-- a datagram has come, whatever it holds -/
  | heard (side : Side)
  /-- the message of the other side's `k`-th datagram is handled -/
  | deliver (side : Side) (k : Nat)
  deriving DecidableEq, Repr

def newLink (params : Side → Params) (isn : Int) : Link where
  ends
    | .client => some (fnlwefjbun isn (params .client))
    | .server => none
  net := fun _ => []
  wrote := fun _ => []
  read := fun _ => []

def Link.move (l : Link) (side : Side) (e : Bxnzsdj) (wrote read : List Payload)
    (sent : List Message) : Link where
  ends := update l.ends side (some e)
  net := update l.net side (l.net side ++ sent)
  wrote := update l.wrote side (l.wrote side ++ wrote)
  read := update l.read side (l.read side ++ read)

/-- `none` also stands for a panic. -/
def linkStep (params : Side → Params) (connId : Int) (l : Link) : LinkAction → Option Link
  | .write side payload => do
    let e ← l.ends side
    let written ← e.gkxcls payload
    some (l.move side written [payload] [] [])
  | .read side => do
    let e ← l.ends side
    let (payload, rest) ← e.odkejnfsa
    some (l.move side rest [] [payload] [])
  | .tick side => do
    let e ← l.ends side
    some (l.move side e.tyhdjska [] [] [])
  | .flush side => do
    let e ← l.ends side
    some (l.move side e.bnmgrlr.2 [] [] e.bnmgrlr.1)
  | .heard side => do
    let e ← l.ends side
    some (l.move side e.bbjdkslwoorun [] [] [])
  | .deliver side k => do
    let m ← (l.net side.other)[k]?
    match l.ends side with
    | some e => do
      let handled ← e.qtbejekw m
      some (l.move side handled [] [] [])
    | none =>
      if m.type = .connect then
        some (l.move side (nfkdlws m.seqNum (params side) connId) [] [] [])
      else some l

variable {params : Side → Params} {isn connId : Int} {l l' : Link}

/-! ### The link carries two transfers -/

/-- A server's end before it is made: it has said and heard nothing. -/
def silent (isn : Int) (params : Params) : Bxnzsdj :=
  { fnlwefjbun isn params with rfxtuoncvn := [] }

def Link.endAt (l : Link) (params : Side → Params) (isn : Int) (side : Side) : Bxnzsdj :=
  (l.ends side).getD (silent isn (params side))

structure Linked (params : Side → Params) (isn : Int) (l : Link) (t : Side → Transfer Payload) :
    Prop where
  sound : ∀ side, (t side).Sound
  drained : ∀ side, (t side).Drained
  speaks : ∀ side, Speaks isn (l.endAt params isn side) (l.wrote side) (l.read side) (t side)
    (t side.other)
  net : ∀ side, ∀ m ∈ l.net side, Genuine isn (t side) (t side.other) m

variable {t : Side → Transfer Payload}

theorem linked_new (params : Side → Params) (isn : Int) :
    Linked params isn (newLink params isn) fun _ => .new := by
  constructor
  · intro side
    exact Transfer.sound_new
  · intro side
    rfl
  · intro side
    cases side with
    | client =>
      apply speaks_new (params .client) 0 [newConnect isn]
      intro m member
      rw [List.mem_singleton.mp member]
      exact .connect
    | server => exact speaks_new (params .server) 0 [] nofun
  · intro side m member
    cases member

/-- One end moves: its own transfer by what a sender does, the other one by what a receiver
does. -/
theorem Linked.move (h : Linked params isn l t) {side : Side} {e : Bxnzsdj}
    {wrote read : List Payload} {sent : List Message} {out inn : Transfer Payload}
    (sends : Transfer.Sends (t side) out) (receives : Transfer.Receives (t side.other) inn)
    (speaks : Speaks isn e (l.wrote side ++ wrote) (l.read side ++ read) out inn)
    (drained : inn.Drained) (genuine : ∀ m ∈ sent, Genuine isn out inn m) :
    ∃ t', Linked params isn (l.move side e wrote read sent) t' := by
  refine ⟨fun s => if s = side then out else inn, ?_, ?_, ?_, ?_⟩
  · intro s
    split
    · exact (h.sound side).sends sends
    · exact (h.sound side.other).receives receives
  · intro s
    split
    · obtain ⟨delivered, stored, -, -⟩ := sends.frame
      have before := h.drained side
      rw [Transfer.Drained] at before ⊢
      rw [delivered, stored, before]
    · exact drained
  · intro s
    by_cases here : s = side
    · subst here
      simpa [Link.endAt, Link.move] using speaks
    · rw [Side.eq_other here]
      have before := h.speaks side.other
      rw [Side.other_other] at before
      simpa [Link.endAt, Link.move] using before.frame receives sends
  · intro s m member
    by_cases here : s = side
    · subst here
      simp only [Link.move, Function.update_self, List.mem_append] at member
      simp only [if_true, Side.other_ne, if_false]
      rcases member with old | new
      · exact (h.net s m old).mono sends receives
      · exact genuine m new
    · rw [Side.eq_other here] at member ⊢
      simp only [Link.move, ne_eq, Side.other_ne, not_false_eq_true,
        Function.update_of_ne] at member
      have before := h.net side.other m member
      rw [Side.other_other] at before
      simpa using before.frame receives sends

theorem Link.endAt_some {side : Side} {e : Bxnzsdj} (there : l.ends side = some e) :
    l.endAt params isn side = e := by
  simp [Link.endAt, there]

/-- Whatever an end does with the datagrams of the other side. -/
theorem Linked.moves (h : Linked params isn l t) {side : Side} {e e' : Bxnzsdj}
    {wrote read : List Payload} {sent : List Message} (there : l.ends side = some e)
    (moves : EndMoves (· ∈ l.net side.other) e e' wrote read sent) :
    ∃ t', Linked params isn (l.move side e' wrote read sent) t' := by
  have speaks := h.speaks side
  rw [Link.endAt_some there] at speaks
  have genuine : ∀ m ∈ l.net side.other, Genuine isn (t side.other) (t side) m := by
    intro m member
    have from_other := h.net side.other m member
    rwa [Side.other_other] at from_other
  obtain ⟨out, inn, sends, receives, after, drained, new⟩ :=
    speaks.moves (h.drained side.other) genuine moves
  exact h.move sends receives after drained new

/-- A connect message brings the server's end into being. -/
theorem Linked.greet (h : Linked params isn l t) {side : Side} {m : Message} (own : Params)
    (connId : Int) (missing : l.ends side = none) (comes : m ∈ l.net side.other)
    (connect : m.type = .connect) :
    ∃ t', Linked params isn (l.move side (nfkdlws m.seqNum own connId) [] [] []) t' := by
  have blank := h.speaks side
  simp only [Link.endAt, missing, Option.getD_none] at blank
  have number : m.seqNum = isn := by
    cases h.net side.other m comes with
    | connect => rfl
    | _ => contradiction
  have greeted : Speaks isn (nfkdlws m.seqNum own connId) (l.wrote side) (l.read side)
      (t side) (t side.other) := by
    rw [number]
    refine ⟨blank.start, blank.written, blank.writes, blank.reads, ?_⟩
    intro other member
    rw [List.mem_singleton.mp member]
    exact .greeting connId
  exact h.move .refl .refl (by simpa using greeted) (h.drained _) nofun

/-- What happens at a link: a call at one end, an epoch there, or the server's end comes into being. -/
inductive LinkMove (params : Side → Params) (connId : Int) (l : Link) : Link → Prop where
  | ignored : LinkMove params connId l l
  | call {side : Side} {e e' : Bxnzsdj} {wrote read : List Payload} {sent : List Message}
      (there : l.ends side = some e)
      (move : EndMove (· ∈ l.net side.other) e e' wrote read sent) :
      LinkMove params connId l (l.move side e' wrote read sent)
  | epoch {side : Side} {e : Bxnzsdj} (there : l.ends side = some e) :
      LinkMove params connId l (l.move side e.tyhdjska [] [] [])
  | greeted {side : Side} {m : Message} (missing : l.ends side = none)
      (comes : m ∈ l.net side.other) (connect : m.type = .connect) :
      LinkMove params connId l (l.move side (nfkdlws m.seqNum (params side) connId) [] [] [])

theorem linkStep_cases {a : LinkAction} (taken : linkStep params connId l a = some l') :
    LinkMove params connId l l' := by
  cases a with
  | write side payload =>
    simp only [linkStep, Option.bind_eq_bind, Option.bind_eq_some_iff] at taken
    obtain ⟨e, there, written, done, result⟩ := taken
    cases Option.some.inj result
    exact .call there (.write done)
  | read side =>
    simp only [linkStep, Option.bind_eq_bind, Option.bind_eq_some_iff] at taken
    obtain ⟨e, there, ⟨payload, rest⟩, done, result⟩ := taken
    cases Option.some.inj result
    exact .call there (.read done)
  | tick side =>
    simp only [linkStep, Option.bind_eq_bind, Option.bind_eq_some_iff] at taken
    obtain ⟨e, there, result⟩ := taken
    cases Option.some.inj result
    exact .epoch there
  | flush side =>
    simp only [linkStep, Option.bind_eq_bind, Option.bind_eq_some_iff] at taken
    obtain ⟨e, there, result⟩ := taken
    cases Option.some.inj result
    exact .call there .flush
  | heard side =>
    simp only [linkStep, Option.bind_eq_bind, Option.bind_eq_some_iff] at taken
    obtain ⟨e, there, result⟩ := taken
    cases Option.some.inj result
    exact .call there .heard
  | deliver side k =>
    simp only [linkStep, Option.bind_eq_bind, Option.bind_eq_some_iff] at taken
    obtain ⟨m, sent, taken⟩ := taken
    have comes := List.mem_of_getElem? sent
    split at taken
    · rename_i e there
      simp only [Option.bind_eq_some_iff] at taken
      obtain ⟨handled, done, result⟩ := taken
      cases Option.some.inj result
      exact .call there (.deliver comes done)
    · rename_i missing
      split at taken
      · rename_i connect
        cases Option.some.inj taken
        exact .greeted missing comes connect
      · cases Option.some.inj taken
        exact .ignored

theorem Linked.step (h : Linked params isn l t) {a : LinkAction}
    (taken : linkStep params connId l a = some l') : ∃ t', Linked params isn l' t' := by
  cases linkStep_cases taken with
  | ignored => exact ⟨t, h⟩
  | call there move => exact h.moves there move.single
  | epoch there => exact h.moves there .tick
  | greeted missing comes connect => exact h.greet _ connId missing comes connect

theorem linked_run {acts : List LinkAction}
    (reached : run (linkStep params connId) (newLink params isn) acts = some l) :
    ∃ t, Linked params isn l t :=
  run_keeps (fun l => ∃ t, Linked params isn l t) (fun _ _ _ ⟨_, h⟩ taken => h.step taken)
    ⟨_, linked_new params isn⟩ acts reached

/-- What has come out at one side, or waits to be read there, went in first at the other. -/
theorem Linked.in_order (h : Linked params isn l t) (side : Side) :
    l.read side.other ++ (l.endAt params isn side.other).asdfghj <+: l.wrote side := by
  have there := h.speaks side.other
  rw [Side.other_other] at there
  rw [← there.reads.delivered, ← (h.speaks side).written]
  exact (h.sound side).delivered

/-- When nothing that was written at one side waits or is unacknowledged, all of it has come into
the read queue of the other. -/
theorem Linked.complete (h : Linked params isn l t) {side : Side} {e : Bxnzsdj}
    (there : l.ends side = some e) (empty : e.agabsdjgdfj = true) :
    l.wrote side = l.read side.other ++ (l.endAt params isn side.other).asdfghj := by
  have speaks := h.speaks side
  rw [Link.endAt_some there] at speaks
  simp only [Bxnzsdj.agabsdjgdfj, decide_eq_true_eq] at empty
  have unacked : e.qqbakktl = ∅ := Map.eq_empty_of_size (by omega)
  have all : ∀ i < (t side).written.length, (t side).settled i := by
    intro i inside
    rcases speaks.writes.settled i (by omega) with waits | done
    · rw [unacked] at waits
      exact absurd waits (AList.notMem_empty _)
    · exact done
  have other := h.speaks side.other
  rw [Side.other_other] at other
  rw [← other.reads.delivered, ← speaks.written]
  exact ((h.sound side).complete (h.drained side) all).symm

/-- In each direction and in every run, the payloads that were read are a prefix of those that
were written. -/
theorem payloads_in_order (params : Side → Params) (isn connId : Int) (acts : List LinkAction)
    (l : Link) (reached : run (linkStep params connId) (newLink params isn) acts = some l)
    (side : Side) : l.read side.other <+: l.wrote side := by
  obtain ⟨t, h⟩ := linked_run reached
  exact (List.prefix_append _ _).trans (h.in_order side)

def smallWindow : Side → Params := fun _ => ⟨5, 2, 3, 2⟩

/-- A client connects. -/
def greet : List LinkAction :=
  [.flush .client, .deliver .server 0, .flush .server, .deliver .client 0]

/-- Two payloads arrive in the wrong order, one of them twice, and one of them is sent again. -/
def reorder : List LinkAction :=
  greet ++ [.write .client [1], .write .client [2], .flush .client, .deliver .server 2,
    .deliver .server 2, .deliver .server 1, .read .server, .tick .client, .flush .client,
    .deliver .server 3, .read .server]

theorem payloads_reordered : ∃ l, run (linkStep smallWindow 1) (newLink smallWindow 7) reorder =
    some l ∧ l.read Side.client.other = [[1], [2]] ∧
      l.read Side.client.other <+: l.wrote .client :=
  ⟨_, rfl, rfl, payloads_in_order smallWindow 7 1 reorder _ rfl .client⟩

end DistSys.Lsp
