import DistSys.Actor.System
import DistSys.Lib.Runs
import Mathlib.Data.Prod.Lex
import Mathlib.Data.String.Basic

/-! The query actor of the key-value store: its messages and `OnMessage`. Times are numbers;
`now` is the reading of `time.Now` in the step. -/
namespace DistSys.Kv

open DistSys.Lib DistSys.Actor

structure Content where
  sender : ActorRef
  value : String
  timeStamp : Nat
  deriving DecidableEq, Repr

/-- What an actor system carries: the messages of the query actors and the replies. -/
inductive Msg where
  | mGet (sender : ActorRef) (key : String)
  | mPut (sender : ActorRef) (key value : String)
  | mList (sender : ActorRef) (start : String)
  | mIntro (actorList remoteActorList : List ActorRef)
  | mSync
  | mUpdate (putList : Map String Content)
  | mRIntro (sender : ActorRef)
  | getReply (value : String) (ok : Bool)
  | putReply
  | listReply (entries : Map String String)

/-- The type of a message as `%T` prints it. -/
def Msg.type : Msg → String
  | mGet .. => "kvserver.MGet"
  | mPut .. => "kvserver.MPut"
  | mList .. => "kvserver.MList"
  | mIntro .. => "kvserver.MIntro"
  | mSync => "kvserver.MSync"
  | mUpdate _ => "kvserver.MUpdate"
  | mRIntro _ => "kvserver.MRIntro"
  | getReply .. => "kvcommon.GetReply"
  | putReply => "kvcommon.PutReply"
  | listReply _ => "kvcommon.ListReply"

/-- `self` is the reference of the actor, from its context. -/
structure QueryActor where
  self : ActorRef
  storage : Map String Content
  actorList : List ActorRef
  putList : Map String Content
  remoteActorList : List ActorRef

def newQueryActor (self : ActorRef) : QueryActor := ⟨self, ∅, [], ∅, []⟩

/-- What `OnMessage` does with its context. -/
inductive Send where
  | tell (ref : ActorRef) (message : Msg)
  | tellAfter (ref : ActorRef) (message : Msg)

def hasPrefix (key start : String) : Bool := start.toList.isPrefixOf key.toList

namespace QueryActor

/-- The loop of MList over the storage. -/
def list (a : QueryActor) (start : String) : Map String String :=
  a.storage.foldl (fun entries key content =>
    if hasPrefix key start then entries.insert key content.value else entries) ∅

def store (a : QueryActor) (key : String) (content : Content) : QueryActor :=
  { a with
    storage := a.storage.insert key content
    putList := a.putList.insert key content }

/-- One turn of the loop of MUpdate. -/
def merge (a : QueryActor) (key : String) (content : Content) : QueryActor :=
  match a.storage.lookup key with
  | none => a.store key content
  | some con =>
    if con.timeStamp < content.timeStamp then a.store key content
    else if con.timeStamp = content.timeStamp ∧ con.sender.uid < content.sender.uid then
      a.store key content
    else a

/-- The references that MSync tells the update: the actors of the server with another counter,
and the remote ones. -/
def targets (a : QueryActor) : List ActorRef :=
  a.actorList.filter (fun ref => ref.counter ≠ a.self.counter) ++ a.remoteActorList

def onMessage (a : QueryActor) (now : Nat) (message : Msg) :
    Except String (QueryActor × List Send) :=
  match message with
  | .mGet sender key =>
    let reply := match a.storage.lookup key with
      | some content => .getReply content.value true
      | none => .getReply "" false
    .ok (a, [.tell sender reply])
  | .mPut sender key value =>
    .ok (a.store key ⟨sender, value, now⟩, [.tell sender .putReply])
  | .mList sender start => .ok (a, [.tell sender (.listReply (a.list start))])
  | .mIntro actorList remoteActorList =>
    .ok ({ a with actorList := actorList, remoteActorList := remoteActorList },
      .tell a.self .mSync :: actorList.map fun ref => .tell ref (.mUpdate a.storage))
  | .mSync =>
    let updates := if 0 < Map.size a.putList then
        a.targets.map fun ref => .tell ref (.mUpdate a.putList)
      else []
    .ok ({ a with putList := ∅ }, updates ++ [.tellAfter a.self .mSync])
  | .mUpdate putList => .ok (putList.foldl merge a, [])
  | .mRIntro sender => .ok ({ a with remoteActorList := a.remoteActorList ++ [sender] }, [])
  | other => .error ("Unexpected counterActor message type: " ++ other.type)

end QueryActor

/-! ### The order of versions -/

/-- The order of the MUpdate branch: the time stamp, then the reference of the sender. -/
def Content.stamp (content : Content) : Nat ×ₗ String :=
  toLex (content.timeStamp, content.sender.uid)

theorem Content.stamp_lt {con content : Content} : con.stamp < content.stamp ↔
    con.timeStamp < content.timeStamp ∨
      con.timeStamp = content.timeStamp ∧ con.sender.uid < content.sender.uid :=
  Prod.Lex.lt_iff

theorem Content.stamp_lt_of_time {con content : Content}
    (earlier : con.timeStamp < content.timeStamp) : con.stamp < content.stamp :=
  Content.stamp_lt.mpr (.inl earlier)

/-- The content that a key keeps when another one comes in. -/
def newer (old : Option Content) (content : Content) : Prop :=
  ∀ con, old = some con → con.stamp < content.stamp

instance (old : Option Content) (content : Content) : Decidable (newer old content) :=
  match old with
  | none => isTrue (fun _ none => by cases none)
  | some con => decidable_of_iff (con.stamp < content.stamp)
      ⟨fun lt _ same => Option.some.inj same ▸ lt, fun all => all con rfl⟩

variable {a b : QueryActor} {key k : String} {content : Content}

theorem merge_eq : a.merge key content =
    if newer (a.storage.lookup key) content then a.store key content else a := by
  unfold QueryActor.merge
  cases a.storage.lookup key with
  | none => exact (if_pos fun _ none => by cases none).symm
  | some con =>
    have rule : newer (some con) content ↔ con.stamp < content.stamp :=
      ⟨fun all => all con rfl, fun lt _ same => Option.some.inj same ▸ lt⟩
    simp only [rule, Content.stamp_lt]
    by_cases before : con.timeStamp < content.timeStamp
    · simp only [before, if_true, true_or]
    · simp only [before, if_false, false_or]

theorem store_storage : (a.store key content).storage.lookup k =
    if k = key then some content else a.storage.lookup k := Map.lookup_insert ..

theorem store_putList : (a.store key content).putList.lookup k =
    if k = key then some content else a.putList.lookup k := Map.lookup_insert ..

/-- What is stored under a key and what is to be passed on of it. -/
def QueryActor.entry (a : QueryActor) (key : String) : Option Content × Option Content :=
  (a.storage.lookup key, a.putList.lookup key)

/-- The loop of MUpdate decides for each key alone. -/
theorem merge_all (putList : Map String Content) :
    (putList.foldl QueryActor.merge a).entry k = match putList.lookup k with
      | some content =>
        if newer (a.storage.lookup k) content then (some content, some content) else a.entry k
      | none => a.entry k := by
  have own : ∀ (a : QueryActor) key content, (a.merge key content).entry key =
      if newer (a.entry key).1 content then (some content, some content) else a.entry key := by
    intro a key content
    rw [merge_eq]
    unfold QueryActor.entry
    split
    · rw [store_storage, store_putList, if_pos rfl, if_pos rfl]
    · rfl
  have other : ∀ (a : QueryActor) key content j, j ≠ key →
      (a.merge key content).entry j = a.entry j := by
    intro a key content j other
    rw [merge_eq]
    unfold QueryActor.entry
    split
    · rw [store_storage, store_putList, if_neg other, if_neg other]
    · rfl
  rw [Map.view_foldl QueryActor.entry (fun content entry =>
    if newer entry.1 content then (some content, some content) else entry) own other a putList k]
  cases putList.lookup k <;> rfl

theorem merge_frame (putList : Map String Content) :
    (putList.foldl QueryActor.merge a).self = a.self ∧
    (putList.foldl QueryActor.merge a).actorList = a.actorList ∧
    (putList.foldl QueryActor.merge a).remoteActorList = a.remoteActorList := by
  obtain ⟨entries, nodup⟩ := putList
  simp only [AList.foldl]
  clear nodup
  induction entries generalizing a with
  | nil => exact ⟨rfl, rfl, rfl⟩
  | cons entry rest ih =>
    rw [List.foldl_cons]
    obtain ⟨self, actors, remotes⟩ := ih (a := a.merge entry.1 entry.2)
    rw [self, actors, remotes, merge_eq]
    split <;> exact ⟨rfl, rfl, rfl⟩

/-! ### The last writer wins -/

/-- One message of a single actor with its clock; a message of another type changes nothing. -/
def hear (a : QueryActor) (input : Nat × Msg) : Option QueryActor :=
  match a.onMessage input.1 input.2 with
  | .ok (b, _) => some b
  | .error _ => some a

/-- What is stored under a key does not go back. -/
def NoOlder (a b : QueryActor) (key : String) : Prop :=
  ∀ con, a.storage.lookup key = some con →
    ∃ content, b.storage.lookup key = some content ∧ con.stamp ≤ content.stamp

theorem NoOlder.of_eq (same : b.storage.lookup key = a.storage.lookup key) : NoOlder a b key :=
  fun con found => ⟨con, same.trans found, le_rfl⟩

/-- A Put reads its clock later than the time stamp of what it replaces. -/
def clockAhead (a : QueryActor) : Nat × Msg → Bool
  | (now, .mPut _ key _) => match a.storage.lookup key with
    | some con => con.timeStamp < now
    | none => true
  | _ => true

theorem hear_noOlder {input : Nat × Msg} (ahead : clockAhead a input = true)
    (heard : hear a input = some b) : NoOlder a b key := by
  obtain ⟨now, message⟩ := input
  cases message with
  | mPut sender key' value =>
    cases heard
    intro con found
    rw [store_storage]
    split
    · rename_i same
      subst same
      refine ⟨_, rfl, (Content.stamp_lt_of_time ?_).le⟩
      simpa only [clockAhead, found, decide_eq_true_eq] using ahead
    · exact ⟨con, found, le_rfl⟩
  | mUpdate putList =>
    cases heard
    have entry := congrArg Prod.fst (merge_all (a := a) (k := key) putList)
    intro con found
    simp only [QueryActor.entry] at entry
    split at entry
    · rename_i content coming
      split at entry
      · rename_i wins
        exact ⟨content, entry, (wins con found).le⟩
      · exact ⟨con, entry.trans found, le_rfl⟩
    · exact ⟨con, entry.trans found, le_rfl⟩
  | mGet | mList | mIntro | mSync | mRIntro | getReply | putReply | listReply =>
    cases heard
    exact .of_eq rfl

theorem NoOlder.trans {c : QueryActor} (first : NoOlder a b key) (second : NoOlder b c key) :
    NoOlder a c key := by
  intro con found
  obtain ⟨middle, between, le⟩ := first con found
  obtain ⟨last, after, le'⟩ := second middle between
  exact ⟨last, after, le.trans le'⟩

theorem last_writer_wins (a b : QueryActor) (inputs : List (Nat × Msg)) (key : String)
    (con : Content) (ahead : Along hear clockAhead a inputs) (reached : run hear a inputs = some b)
    (stored : a.storage.lookup key = some con) :
    ∃ content, b.storage.lookup key = some content ∧ con.stamp ≤ content.stamp := by
  have kept : NoOlder a b key := run_invariant (fun b => NoOlder a b key)
    (fun _ _ _ older ok heard => older.trans (hear_noOlder ok heard)) (.of_eq rfl) inputs ahead
    reached
  exact kept con stored

/-- An actor stores what it is told of another one and then its own client's Put. -/
def twoWriters (time : Nat) : List (Nat × Msg) :=
  [(3, .mPut ⟨"localhost:9000", 1⟩ "k" "own"),
    (4, .mUpdate ((∅ : Map String Content).insert "k" ⟨⟨"localhost:9009", 5⟩, "other", 9⟩)),
    (time, .mPut ⟨"localhost:9000", 2⟩ "k" "last")]

theorem last_writer_wins_later : ∃ a b, run hear (newQueryActor ⟨"localhost:9000", 0⟩)
      ((twoWriters 10).take 2) = some a ∧ run hear a ((twoWriters 10).drop 2) = some b ∧
    ∃ content, b.storage.lookup "k" = some content ∧
      (⟨⟨"localhost:9009", 5⟩, "other", 9⟩ : Content).stamp ≤ content.stamp :=
  ⟨_, _, rfl, rfl, last_writer_wins _ _ ((twoWriters 10).drop 2) "k" _ (by decide) rfl rfl⟩

/-- The clock of this actor is behind: its client's Put replaces a newer value. -/
theorem later_value_replaced : ∃ a b, run hear (newQueryActor ⟨"localhost:9000", 0⟩)
      ((twoWriters 5).take 2) = some a ∧ run hear a ((twoWriters 5).drop 2) = some b ∧
    a.storage.lookup "k" = some ⟨⟨"localhost:9009", 5⟩, "other", 9⟩ ∧
    b.storage.lookup "k" = some ⟨⟨"localhost:9000", 2⟩, "last", 5⟩ ∧
    (⟨⟨"localhost:9000", 2⟩, "last", 5⟩ : Content).stamp <
      (⟨⟨"localhost:9009", 5⟩, "other", 9⟩ : Content).stamp :=
  ⟨_, _, rfl, rfl, rfl, rfl, Content.stamp_lt.mpr (by decide)⟩

end DistSys.Kv
