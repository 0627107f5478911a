import DistSys.Lsp.Frames
import DistSys.Lsp.Refine

/-! The client: its main loop `fdpnihxbxj` and its socket reader `hsowlmmkwm` as two threads
over one endpoint. The reader may count a datagram as heard between any two looks that the
main loop takes at `jfkdl`, so every such look is a step of its own. -/
namespace DistSys.Lsp

open DistSys.Lib

/-- Where the main loop stands: at one of the functions of an iteration, in a branch of the
`select`, or behind the loop. -/
inductive LoopPc where
  | flush
  | kbiorathrz
  | msltdjocir
  /-- with the loop's `bgikdrftzz` so far -/
  | cxpdkaxytf (bgikdrftzz : Bool)
  | select
  | ujuassxdjg (payload : Payload)
  /-- in `ujuassxdjg`, the caller may have been answered already -/
  | gkxcls (payload : Payload) (answered : Bool)
  /-- in `tyhdjska`, the epoch is counted -/
  | tyhdjska
  /-- the socket is closed and the reader is asked to stop -/
  | xrwedxzgjd
  | returned
  /-- at a channel that nobody will ever take from -/
  | blocked
  deriving DecidableEq, Repr

/-- Where the reader stands: at its socket, with bytes for the epoch goroutine (`none` does not
decode), or with a message for the main loop. -/
inductive ReaderPc where
  | polling
  | telling (datagram : Option Message)
  | handing (m : Message)
  | returned
  deriving DecidableEq, Repr

/-- What a caller gets: of `NewClient`, `Read`, `Write` and `Close`. -/
inductive ClientAnswer where
  | connected (ok : Bool)
  | read (payload : Option Payload)
  | wrote (ok : Bool)
  | closed (ok : Bool)
  deriving DecidableEq, Repr

/-- A channel field is true while a request is in it. `zguucznusf` is whether the epoch
goroutine runs. The last four fields are a record of all that was sent, accepted for writing,
taken out by a read, and answered. -/
structure Rtvbvojjbl where
  uygovtfegl : Bxnzsdj
  pztumoofep : Bool
  lcuzvoeeux : Bool
  kmpyqgmcyl : Bool
  main : LoopPc
  reader : ReaderPc
  zguucznusf : Bool
  sent : List Message
  wrote : List Payload
  taken : List Payload
  answers : List ClientAnswer

def newClient (initialSeqNum : Int) (params : Params) : Rtvbvojjbl where
  uygovtfegl := fnlwefjbun initialSeqNum params
  pztumoofep := true
  lcuzvoeeux := false
  kmpyqgmcyl := false
  main := .flush
  reader := .polling
  zguucznusf := true
  sent := []
  wrote := []
  taken := []
  answers := []

namespace Rtvbvojjbl

def answer (c : Rtvbvojjbl) (a : ClientAnswer) : Rtvbvojjbl := { c with answers := c.answers ++ [a] }

def goto (c : Rtvbvojjbl) (pc : LoopPc) : Rtvbvojjbl := { c with main := pc }

/-- The head of the loop: what waits is written to the socket. -/
def writeSocket (c : Rtvbvojjbl) : Rtvbvojjbl :=
  { c with
    uygovtfegl := c.uygovtfegl.bnmgrlr.2
    sent := c.sent ++ c.uygovtfegl.bnmgrlr.1
    main := .kbiorathrz }

/-- A read request that waits is answered, if it can be. -/
def kbiorathrz (c : Rtvbvojjbl) : Option Rtvbvojjbl :=
  let failed := ({ c with lcuzvoeeux := false }.answer (.read none)).goto .msltdjocir
  if ¬ c.lcuzvoeeux then some (c.goto .msltdjocir)
  else if c.uygovtfegl.rkdlxleik then do
    let (payload, rest) ← c.uygovtfegl.odkejnfsa
    let read := { c with
      uygovtfegl := rest
      taken := c.taken ++ [payload]
      lcuzvoeeux := false }
    some ((read.answer (.read (some payload))).goto .msltdjocir)
  else if c.uygovtfegl.jfkdl then some failed
  else if c.kmpyqgmcyl then some failed
  else some (c.goto .msltdjocir)

/-- `NewClient` is answered. After the good news its channel is nil, and the bad news then
blocks for ever. -/
def msltdjocir (c : Rtvbvojjbl) : Rtvbvojjbl :=
  if ¬ c.pztumoofep then c.goto (.cxpdkaxytf false)
  else if 0 < c.uygovtfegl.rdcppgudji then
    let connected := { c with pztumoofep := false }.answer (.connected true)
    if c.uygovtfegl.jfkdl then connected.goto .blocked
    else connected.goto (.cxpdkaxytf false)
  else if c.uygovtfegl.jfkdl then (c.answer (.connected false)).goto (.cxpdkaxytf true)
  else c.goto (.cxpdkaxytf false)

/-- A close request that waits is answered, if it can be. -/
def cxpdkaxytf (c : Rtvbvojjbl) (bgikdrftzz : Bool) : Rtvbvojjbl :=
  let stays := c.goto (if bgikdrftzz then .xrwedxzgjd else .select)
  if ¬ c.kmpyqgmcyl then stays
  else if c.uygovtfegl.agabsdjgdfj then
    ({ c with zguucznusf := false }.answer (.closed true)).goto .xrwedxzgjd
  else if c.uygovtfegl.jfkdl then
    ({ c with zguucznusf := false }.answer (.closed false)).goto .xrwedxzgjd
  else stays

/-- A write request. An error does not end the call: a second answer blocks for ever. -/
def ujuassxdjg (c : Rtvbvojjbl) (payload : Payload) : Rtvbvojjbl :=
  if c.uygovtfegl.jfkdl then
    let refused := c.answer (.wrote false)
    if c.kmpyqgmcyl then refused.goto .blocked else refused.goto (.gkxcls payload true)
  else if c.kmpyqgmcyl then (c.answer (.wrote false)).goto (.gkxcls payload true)
  else c.goto (.gkxcls payload false)

def gkxcls (c : Rtvbvojjbl) (payload : Payload) (answered : Bool) : Option Rtvbvojjbl := do
  let written ← c.uygovtfegl.gkxcls payload
  let accepted := { c with
    uygovtfegl := written
    wrote := c.wrote ++ [payload] }
  some (if answered then accepted.goto .blocked else (accepted.answer (.wrote true)).goto .flush)

end Rtvbvojjbl

inductive ClientAction where
  /-- the main loop goes on, outside its `select` -/
  | step
  | write (payload : Payload)
  | read
  | close
  | tick
  /-- the main loop takes the reader's message -/
  | message
  /-- the reader gets a datagram out of the socket -/
  | datagram (bytes : Option Message)
  /-- the epoch goroutine takes the reader's signal -/
  | heard
  /-- the reader takes the request to stop -/
  | stop
  deriving DecidableEq, Repr

/-- The main loop outside its `select`. -/
def mainStep (c : Rtvbvojjbl) : Option Rtvbvojjbl :=
  match c.main with
  | .flush => some c.writeSocket
  | .kbiorathrz => c.kbiorathrz
  | .msltdjocir => some c.msltdjocir
  | .cxpdkaxytf bgikdrftzz => some (c.cxpdkaxytf bgikdrftzz)
  | .ujuassxdjg payload => some (c.ujuassxdjg payload)
  | .gkxcls payload answered => c.gkxcls payload answered
  | .tyhdjska => some ({ c with uygovtfegl := c.uygovtfegl.sayEpoch }.goto .flush)
  | .select | .xrwedxzgjd | .returned | .blocked => none

/-- A caller has a client to call only after `NewClient` has returned it. `none` also stands
for a panic. -/
def clientStep (c : Rtvbvojjbl) : ClientAction → Option Rtvbvojjbl
  | .step => mainStep c
  | .write payload =>
    if c.main = .select ∧ ¬ c.pztumoofep then some (c.goto (.ujuassxdjg payload)) else none
  | .read =>
    if c.main = .select ∧ ¬ c.pztumoofep then some ({ c with lcuzvoeeux := true }.goto .flush)
    else none
  | .close =>
    if c.main = .select ∧ ¬ c.pztumoofep then some ({ c with kmpyqgmcyl := true }.goto .flush)
    else none
  | .tick =>
    if c.main = .select then
      some ({ c with uygovtfegl := c.uygovtfegl.llehwkas }.goto .tyhdjska)
    else none
  | .message => match c.main, c.reader with
    | .select, .handing m => do
      let handled ← c.uygovtfegl.qtbejekw m
      some ({ c with uygovtfegl := handled, reader := .polling }.goto .flush)
    | _, _ => none
  | .datagram bytes =>
    if c.reader = .polling ∧ c.main ≠ .xrwedxzgjd ∧ c.main ≠ .returned then
      some { c with reader := .telling bytes }
    else none
  | .heard => match c.reader with
    | .telling bytes =>
      if c.zguucznusf then
        let told := { c with uygovtfegl := c.uygovtfegl.bbjdkslwoorun }
        match bytes with
        | none => some { told with reader := .polling }
        | some m => match ciqlyoibuh m with
          | none => none
          | some none => some { told with reader := .polling }
          | some (some m) => some { told with reader := .handing m }
      else none
    | _ => none
  | .stop =>
    if c.main = .xrwedxzgjd ∧ c.reader = .polling then
      some { c with main := .returned, reader := .returned }
    else none

/-! ### Every step, case by case -/

variable {c c' : Rtvbvojjbl}

/-- What the main loop does outside its `select`. -/
inductive LoopMove (c : Rtvbvojjbl) : Rtvbvojjbl → Prop where
  | flush (pc : c.main = .flush) : LoopMove c c.writeSocket
  | noRead (pc : c.main = .kbiorathrz) (idle : c.lcuzvoeeux = true →
      c.uygovtfegl.asdfghj = [] ∧ c.uygovtfegl.jfkdl = false ∧ c.kmpyqgmcyl = false) :
      LoopMove c (c.goto .msltdjocir)
  | readPayload (payload : Payload) (rest : Bxnzsdj) (pc : c.main = .kbiorathrz)
      (waits : c.lcuzvoeeux = true) (taken : c.uygovtfegl.odkejnfsa = some (payload, rest)) :
      LoopMove c (({ c with
        uygovtfegl := rest
        taken := c.taken ++ [payload]
        lcuzvoeeux := false }.answer (.read (some payload))).goto .msltdjocir)
  | readFailed (pc : c.main = .kbiorathrz) (waits : c.lcuzvoeeux = true)
      (empty : c.uygovtfegl.asdfghj = [])
      (why : c.uygovtfegl.jfkdl = true ∨ c.kmpyqgmcyl = true) :
      LoopMove c (({ c with lcuzvoeeux := false }.answer (.read none)).goto .msltdjocir)
  | noConnect (pc : c.main = .msltdjocir) (idle : c.pztumoofep = true →
      ¬ 0 < c.uygovtfegl.rdcppgudji ∧ c.uygovtfegl.jfkdl = false) :
      LoopMove c (c.goto (.cxpdkaxytf false))
  | connected (pc : c.main = .msltdjocir) (waits : c.pztumoofep = true)
      (id : 0 < c.uygovtfegl.rdcppgudji) (lives : c.uygovtfegl.jfkdl = false) :
      LoopMove c (({ c with pztumoofep := false }.answer (.connected true)).goto (.cxpdkaxytf false))
  | connectedLost (pc : c.main = .msltdjocir) (waits : c.pztumoofep = true)
      (id : 0 < c.uygovtfegl.rdcppgudji) (lost : c.uygovtfegl.jfkdl = true) :
      LoopMove c (({ c with pztumoofep := false }.answer (.connected true)).goto .blocked)
  | connectFailed (pc : c.main = .msltdjocir) (waits : c.pztumoofep = true)
      (unknown : ¬ 0 < c.uygovtfegl.rdcppgudji) (lost : c.uygovtfegl.jfkdl = true) :
      LoopMove c ((c.answer (.connected false)).goto (.cxpdkaxytf true))
  | noClose (bgikdrftzz : Bool) (pc : c.main = .cxpdkaxytf bgikdrftzz)
      (idle : c.kmpyqgmcyl = true →
        c.uygovtfegl.agabsdjgdfj = false ∧ c.uygovtfegl.jfkdl = false) :
      LoopMove c (c.goto (if bgikdrftzz then .xrwedxzgjd else .select))
  | closedWell (bgikdrftzz : Bool) (pc : c.main = .cxpdkaxytf bgikdrftzz)
      (asked : c.kmpyqgmcyl = true) (empty : c.uygovtfegl.agabsdjgdfj = true) :
      LoopMove c (({ c with zguucznusf := false }.answer (.closed true)).goto .xrwedxzgjd)
  | closedLost (bgikdrftzz : Bool) (pc : c.main = .cxpdkaxytf bgikdrftzz)
      (asked : c.kmpyqgmcyl = true) (lost : c.uygovtfegl.jfkdl = true) :
      LoopMove c (({ c with zguucznusf := false }.answer (.closed false)).goto .xrwedxzgjd)
  | takes (payload : Payload) (pc : c.main = .ujuassxdjg payload)
      (lives : c.uygovtfegl.jfkdl = false) (unclosed : c.kmpyqgmcyl = false) :
      LoopMove c (c.goto (.gkxcls payload false))
  | refused (payload : Payload) (pc : c.main = .ujuassxdjg payload)
      (one : c.uygovtfegl.jfkdl = !c.kmpyqgmcyl) :
      LoopMove c ((c.answer (.wrote false)).goto (.gkxcls payload true))
  | refusedTwice (payload : Payload) (pc : c.main = .ujuassxdjg payload)
      (lost : c.uygovtfegl.jfkdl = true) (asked : c.kmpyqgmcyl = true) :
      LoopMove c ((c.answer (.wrote false)).goto .blocked)
  | wrote (payload : Payload) (l : Bxnzsdj) (pc : c.main = .gkxcls payload false)
      (written : c.uygovtfegl.gkxcls payload = some l) :
      LoopMove c (({ c with
        uygovtfegl := l
        wrote := c.wrote ++ [payload] }.answer (.wrote true)).goto .flush)
  | wroteTwice (payload : Payload) (l : Bxnzsdj) (pc : c.main = .gkxcls payload true)
      (written : c.uygovtfegl.gkxcls payload = some l) :
      LoopMove c ({ c with
        uygovtfegl := l
        wrote := c.wrote ++ [payload] }.goto .blocked)
  | epoch (pc : c.main = .tyhdjska) :
      LoopMove c ({ c with uygovtfegl := c.uygovtfegl.sayEpoch }.goto .flush)

theorem kbiorathrz_cases (pc : c.main = .kbiorathrz) (stepped : c.kbiorathrz = some c') :
    LoopMove c c' := by
  simp only [Rtvbvojjbl.kbiorathrz] at stepped
  split at stepped
  · rename_i idle
    cases Option.some.inj stepped
    exact .noRead pc fun waits => absurd waits idle
  rename_i waits
  have waits : c.lcuzvoeeux = true := by simpa using waits
  split at stepped
  · simp only [Option.bind_eq_bind, Option.bind_eq_some_iff] at stepped
    obtain ⟨⟨payload, rest⟩, taken, result⟩ := stepped
    cases Option.some.inj result
    exact .readPayload payload rest pc waits taken
  rename_i empty
  have empty : c.uygovtfegl.asdfghj = [] := by simpa [Bxnzsdj.rkdlxleik] using empty
  split at stepped
  · rename_i lost
    cases Option.some.inj stepped
    exact .readFailed pc waits empty (.inl lost)
  rename_i lives
  split at stepped
  · rename_i asked
    cases Option.some.inj stepped
    exact .readFailed pc waits empty (.inr asked)
  · rename_i unclosed
    cases Option.some.inj stepped
    exact .noRead pc fun _ => ⟨empty, by simpa using lives, by simpa using unclosed⟩

theorem msltdjocir_cases (pc : c.main = .msltdjocir) : LoopMove c c.msltdjocir := by
  unfold Rtvbvojjbl.msltdjocir
  split
  · rename_i idle
    exact .noConnect pc fun waits => absurd waits idle
  rename_i waits
  have waits : c.pztumoofep = true := by simpa using waits
  split
  · rename_i id
    dsimp only
    split
    · rename_i lost
      exact .connectedLost pc waits id lost
    · rename_i lives
      exact .connected pc waits id (by simpa using lives)
  rename_i unknown
  split
  · rename_i lost
    exact .connectFailed pc waits unknown lost
  · rename_i lives
    exact .noConnect pc fun _ => ⟨unknown, by simpa using lives⟩

theorem cxpdkaxytf_cases {bgikdrftzz : Bool} (pc : c.main = .cxpdkaxytf bgikdrftzz) :
    LoopMove c (c.cxpdkaxytf bgikdrftzz) := by
  simp only [Rtvbvojjbl.cxpdkaxytf]
  split
  · rename_i idle
    exact .noClose _ pc fun asked => absurd asked idle
  rename_i asked
  have asked : c.kmpyqgmcyl = true := by simpa using asked
  split
  · rename_i empty
    exact .closedWell _ pc asked empty
  rename_i unacked
  split
  · rename_i lost
    exact .closedLost _ pc asked lost
  · rename_i lives
    exact .noClose _ pc fun _ => ⟨by simpa using unacked, by simpa using lives⟩

theorem ujuassxdjg_cases {payload : Payload} (pc : c.main = .ujuassxdjg payload) :
    LoopMove c (c.ujuassxdjg payload) := by
  unfold Rtvbvojjbl.ujuassxdjg
  cases lost : c.uygovtfegl.jfkdl with
  | true =>
    cases asked : c.kmpyqgmcyl with
    | true => exact .refusedTwice payload pc lost asked
    | false => exact .refused payload pc (by rw [lost, asked]; rfl)
  | false =>
    cases asked : c.kmpyqgmcyl with
    | true => exact .refused payload pc (by rw [lost, asked]; rfl)
    | false => exact .takes payload pc lost asked

theorem writes_cases {payload : Payload} {answered : Bool}
    (pc : c.main = .gkxcls payload answered) (stepped : c.gkxcls payload answered = some c') :
    LoopMove c c' := by
  simp only [Rtvbvojjbl.gkxcls, Option.bind_eq_bind, Option.bind_eq_some_iff] at stepped
  obtain ⟨l, written, result⟩ := stepped
  cases Option.some.inj result
  cases answered with
  | true => exact .wroteTwice payload l pc written
  | false => exact .wrote payload l pc written

theorem mainStep_cases (stepped : mainStep c = some c') : LoopMove c c' := by
  unfold mainStep at stepped
  split at stepped
  · rename_i pc
    cases Option.some.inj stepped
    exact .flush pc
  · rename_i pc
    exact kbiorathrz_cases pc stepped
  · rename_i pc
    cases Option.some.inj stepped
    exact msltdjocir_cases pc
  · rename_i pc
    cases Option.some.inj stepped
    exact cxpdkaxytf_cases pc
  · rename_i pc
    cases Option.some.inj stepped
    exact ujuassxdjg_cases pc
  · rename_i pc
    exact writes_cases pc stepped
  · rename_i pc
    cases Option.some.inj stepped
    exact .epoch pc
  all_goals contradiction

/-- What the threads do. -/
inductive ThreadStep (c : Rtvbvojjbl) : ClientAction → Rtvbvojjbl → Prop where
  | step {c' : Rtvbvojjbl} (move : LoopMove c c') : ThreadStep c .step c'
  | write {payload : Payload} (select : c.main = .select) (connected : c.pztumoofep = false) :
      ThreadStep c (.write payload) (c.goto (.ujuassxdjg payload))
  | read (select : c.main = .select) (connected : c.pztumoofep = false) :
      ThreadStep c .read ({ c with lcuzvoeeux := true }.goto .flush)
  | close (select : c.main = .select) (connected : c.pztumoofep = false) :
      ThreadStep c .close ({ c with kmpyqgmcyl := true }.goto .flush)
  | tick (select : c.main = .select) :
      ThreadStep c .tick ({ c with uygovtfegl := c.uygovtfegl.llehwkas }.goto .tyhdjska)
  | message (m : Message) (l : Bxnzsdj) (select : c.main = .select)
      (handing : c.reader = .handing m) (handled : c.uygovtfegl.qtbejekw m = some l) :
      ThreadStep c .message ({ c with uygovtfegl := l, reader := .polling }.goto .flush)
  | datagram {bytes : Option Message} (polling : c.reader = .polling)
      (runs : c.main ≠ .xrwedxzgjd ∧ c.main ≠ .returned) :
      ThreadStep c (.datagram bytes) { c with reader := .telling bytes }
  | dropped (bytes : Option Message) (telling : c.reader = .telling bytes)
      (runs : c.zguucznusf = true) (drops : ∀ m, bytes = some m → ciqlyoibuh m = some none) :
      ThreadStep c .heard { c with
        uygovtfegl := c.uygovtfegl.bbjdkslwoorun, reader := .polling }
  | passed (m m' : Message) (telling : c.reader = .telling (some m)) (runs : c.zguucznusf = true)
      (passes : ciqlyoibuh m = some (some m')) : ThreadStep c .heard { c with
        uygovtfegl := c.uygovtfegl.bbjdkslwoorun, reader := .handing m' }
  | stop (waits : c.main = .xrwedxzgjd) (polling : c.reader = .polling) :
      ThreadStep c .stop { c with main := .returned, reader := .returned }

theorem clientStep_heard (stepped : clientStep c .heard = some c') : ThreadStep c .heard c' := by
  simp only [clientStep] at stepped
  split at stepped
  · rename_i bytes telling
    split at stepped
    · rename_i runs
      split at stepped
      · cases Option.some.inj stepped
        exact .dropped _ telling runs (by simp)
      · split at stepped
        · contradiction
        · rename_i drops
          cases Option.some.inj stepped
          exact .dropped _ telling runs (by simp [drops])
        · rename_i passes
          cases Option.some.inj stepped
          exact .passed _ _ telling runs passes
    · contradiction
  · contradiction

theorem clientStep_inv {a : ClientAction} (stepped : clientStep c a = some c') :
    ThreadStep c a c' := by
  cases a with
  | step => exact .step (mainStep_cases stepped)
  | write payload =>
    simp only [clientStep] at stepped
    split at stepped
    · rename_i ready
      cases Option.some.inj stepped
      exact .write ready.1 (by simpa using ready.2)
    · contradiction
  | read =>
    simp only [clientStep] at stepped
    split at stepped
    · rename_i ready
      cases Option.some.inj stepped
      exact .read ready.1 (by simpa using ready.2)
    · contradiction
  | close =>
    simp only [clientStep] at stepped
    split at stepped
    · rename_i ready
      cases Option.some.inj stepped
      exact .close ready.1 (by simpa using ready.2)
    · contradiction
  | tick =>
    simp only [clientStep] at stepped
    split at stepped
    · rename_i select
      cases Option.some.inj stepped
      exact .tick select
    · contradiction
  | message =>
    simp only [clientStep] at stepped
    split at stepped
    · rename_i m select handing
      simp only [Option.bind_eq_bind, Option.bind_eq_some_iff] at stepped
      obtain ⟨l, handled, result⟩ := stepped
      cases Option.some.inj result
      exact .message m l select handing handled
    · contradiction
  | datagram bytes =>
    simp only [clientStep] at stepped
    split at stepped
    · rename_i ready
      cases Option.some.inj stepped
      exact .datagram ready.1 ready.2
    · contradiction
  | heard => exact clientStep_heard stepped
  | stop =>
    simp only [clientStep] at stepped
    split at stepped
    · rename_i ready
      cases Option.some.inj stepped
      exact .stop ready.1 ready.2
    · contradiction

/-! ### What a step does to the endpoint -/

/-- A step is calls at the endpoint, and the record follows them. -/
def Rtvbvojjbl.Moves (c c' : Rtvbvojjbl) : Prop :=
  ∃ w r m, EndMoves (fun m => c.reader = .handing m) c.uygovtfegl c'.uygovtfegl w r m ∧
    c'.wrote = c.wrote ++ w ∧ c'.taken = c.taken ++ r ∧ c'.sent = c.sent ++ m

theorem Rtvbvojjbl.Moves.quiet (same : c'.uygovtfegl = c.uygovtfegl) (wrote : c'.wrote = c.wrote)
    (taken : c'.taken = c.taken) (sent : c'.sent = c.sent) : c.Moves c' :=
  ⟨[], [], [], same ▸ .none, by simp [wrote], by simp [taken], by simp [sent]⟩

/-- A step of the main loop outside its `select`. Only `cxpdkaxytf` says that the close went
well, and what it has seen then stays. -/
structure LoopStep (c c' : Rtvbvojjbl) : Prop where
  moves : c.Moves c'
  reader : c'.reader = c.reader
  closes : .closed true ∈ c'.answers → .closed true ∈ c.answers ∨
    c'.main = .xrwedxzgjd ∧ c'.zguucznusf = false ∧ c'.uygovtfegl.agabsdjgdfj = true

theorem LoopStep.quiet (same : c'.uygovtfegl = c.uygovtfegl) (wrote : c'.wrote = c.wrote)
    (taken : c'.taken = c.taken) (sent : c'.sent = c.sent) (reader : c'.reader = c.reader)
    (answers : .closed true ∈ c'.answers → .closed true ∈ c.answers) : LoopStep c c' :=
  ⟨.quiet same wrote taken sent, reader, fun closed => .inl (answers closed)⟩

theorem LoopMove.step (move : LoopMove c c') : LoopStep c c' := by
  cases move with
  | flush =>
    exact ⟨⟨[], [], _, EndMove.single .flush, by simp [Rtvbvojjbl.writeSocket],
      by simp [Rtvbvojjbl.writeSocket], rfl⟩, rfl, .inl⟩
  | readPayload payload rest pc waits taken =>
    refine ⟨⟨[], [payload], [], EndMove.single (.read taken), ?_, rfl, ?_⟩, rfl, ?_⟩
    · simp [Rtvbvojjbl.answer, Rtvbvojjbl.goto]
    · simp [Rtvbvojjbl.answer, Rtvbvojjbl.goto]
    · simp +contextual [Rtvbvojjbl.answer, Rtvbvojjbl.goto]
  | closedWell bgikdrftzz pc asked empty =>
    exact ⟨.quiet rfl rfl rfl rfl, rfl, fun _ => .inr ⟨rfl, rfl, empty⟩⟩
  | wrote payload l pc written =>
    refine ⟨⟨[payload], [], [], EndMove.single (.write written), rfl, ?_, ?_⟩, rfl, ?_⟩
    · simp [Rtvbvojjbl.answer, Rtvbvojjbl.goto]
    · simp [Rtvbvojjbl.answer, Rtvbvojjbl.goto]
    · intro closed
      exact .inl (by simpa [Rtvbvojjbl.answer, Rtvbvojjbl.goto] using closed)
  | wroteTwice payload l pc written =>
    refine ⟨⟨[payload], [], [], EndMove.single (.write written), rfl, ?_, ?_⟩, rfl, .inl⟩
    · simp [Rtvbvojjbl.goto]
    · simp [Rtvbvojjbl.goto]
  | epoch =>
    refine ⟨⟨[], [], [], EndMove.single .speak, ?_, ?_, ?_⟩, rfl, .inl⟩
    all_goals simp [Rtvbvojjbl.goto]
  | noRead | noConnect | noClose | takes => exact .quiet rfl rfl rfl rfl rfl id
  | readFailed | connected | connectedLost | connectFailed | closedLost | refused | refusedTwice =>
    exact .quiet rfl rfl rfl rfl rfl (by simp [Rtvbvojjbl.answer, Rtvbvojjbl.goto])

/-! ### What a step of the client does -/

def ReaderPc.Holds (ok : Message → Prop) : ReaderPc → Prop
  | .telling (some m) | .handing m => ok m
  | .polling | .telling none | .returned => True

theorem ReaderPc.Holds.mono {ok ok' : Message → Prop} {reader : ReaderPc}
    (h : reader.Holds ok) (weaker : ∀ m, ok m → ok' m) : reader.Holds ok' := by
  cases reader with
  | polling => trivial
  | telling bytes =>
    cases bytes with
    | none => trivial
    | some m => exact weaker m h
  | handing m => exact weaker m h
  | returned => trivial

/-- Every step of the two threads. What the reader holds has come in as a datagram, and after a
close that went well nothing happens at the endpoint. -/
structure ClientStep (ok : Message → Prop) (c : Rtvbvojjbl) (a : ClientAction) (c' : Rtvbvojjbl) :
    Prop where
  moves : c.Moves c'
  holds : c.reader.Holds ok → (∀ m, a = .datagram (some m) → ok m) → c'.reader.Holds ok
  closes : .closed true ∈ c'.answers →
    (.closed true ∈ c.answers ∧ (c.main = .xrwedxzgjd ∨ c.main = .returned →
      c.zguucznusf = false → (c'.main = .xrwedxzgjd ∨ c'.main = .returned) ∧
        c'.zguucznusf = false ∧ c'.uygovtfegl = c.uygovtfegl)) ∨
    c'.main = .xrwedxzgjd ∧ c'.zguucznusf = false ∧ c'.uygovtfegl.agabsdjgdfj = true

variable {ok : Message → Prop} {a : ClientAction}

/-- The `select` is left. -/
theorem ClientStep.leave (select : c.main = .select) (moves : c.Moves c')
    (reader : c'.reader = c.reader ∨ c'.reader = .polling)
    (answers : c'.answers = c.answers) : ClientStep ok c a c' := by
  refine ⟨moves, ?_, ?_⟩
  · intro held _
    rcases reader with same | gone
    · rw [same]
      exact held
    · rw [gone]
      trivial
  · intro closed
    refine .inl ⟨answers ▸ closed, ?_⟩
    rintro (stopped | stopped)
    · cases select.symm.trans stopped
    · cases select.symm.trans stopped

/-- The epoch goroutine takes the reader's word. It runs, so the close has not been answered. -/
theorem ClientStep.told {reader : ReaderPc} (runs : c.zguucznusf = true)
    (keeps : c.reader.Holds ok → reader.Holds ok) : ClientStep ok c .heard
      { c with uygovtfegl := c.uygovtfegl.bbjdkslwoorun, reader := reader } := by
  refine ⟨⟨[], [], [], EndMove.single .heard, by simp, by simp, by simp⟩,
    fun held _ => keeps held, fun closed => .inl ⟨closed, ?_⟩⟩
  intro _ ended
  rw [runs] at ended
  cases ended

theorem clientStep_cases (passes : ∀ m, ok m → ciqlyoibuh m = some (some m))
    (stepped : clientStep c a = some c') : ClientStep ok c a c' := by
  cases clientStep_inv stepped with
  | step move =>
    have loop := move.step
    refine ⟨loop.moves, fun held _ => loop.reader ▸ held, ?_⟩
    intro closed
    rcases loop.closes closed with before | now
    · refine .inl ⟨before, ?_⟩
      rintro (stopped | stopped)
      · simp [clientStep, mainStep, stopped] at stepped
      · simp [clientStep, mainStep, stopped] at stepped
    · exact .inr now
  | message m l select handing handled =>
    refine .leave select ⟨[], [], [], EndMove.single (.deliver handing handled), ?_, ?_, ?_⟩
      (.inr rfl) rfl
    all_goals simp [Rtvbvojjbl.goto]
  | tick select =>
    refine .leave select ⟨[], [], [], EndMove.single .epoch, ?_, ?_, ?_⟩ (.inl rfl) rfl
    all_goals simp [Rtvbvojjbl.goto]
  | write select | read select | close select =>
    exact .leave select (.quiet rfl rfl rfl rfl) (.inl rfl) rfl
  | datagram polling runs =>
    rename_i bytes
    refine ⟨.quiet rfl rfl rfl rfl, ?_, ?_⟩
    · intro _ comes
      cases bytes with
      | none => trivial
      | some m => exact comes m rfl
    · intro closed
      refine .inl ⟨closed, ?_⟩
      rintro (stopped | stopped)
      · exact absurd stopped runs.1
      · exact absurd stopped runs.2
  | dropped _ _ runs => exact .told runs fun _ => trivial
  | passed m m' telling runs decoded =>
    apply ClientStep.told runs
    intro held
    rw [telling] at held
    cases Option.some.inj (Option.some.inj (decoded.symm.trans (passes m held)))
    exact held
  | stop =>
    exact ⟨.quiet rfl rfl rfl rfl, fun _ _ => trivial,
      fun closed => .inl ⟨closed, fun _ ended => ⟨.inr rfl, ended, rfl⟩⟩⟩

/-- A close that went well: the endpoint has nothing left to send and is left alone. -/
def Rtvbvojjbl.Settled (c : Rtvbvojjbl) : Prop :=
  .closed true ∈ c.answers → (c.main = .xrwedxzgjd ∨ c.main = .returned) ∧
    c.zguucznusf = false ∧ c.uygovtfegl.agabsdjgdfj = true

theorem ClientStep.settled (step : ClientStep ok c a c') (h : c.Settled) : c'.Settled := by
  intro closed
  rcases step.closes closed with ⟨before, rests⟩ | ⟨stopped, ended, empty⟩
  · obtain ⟨stopped, ended, empty⟩ := h before
    obtain ⟨still, off, same⟩ := rests stopped ended
    exact ⟨still, off, same ▸ empty⟩
  · exact ⟨.inl stopped, ended, empty⟩

end DistSys.Lsp
