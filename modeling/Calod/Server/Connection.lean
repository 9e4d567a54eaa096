import Calod.Lib.Transition
import Calod.Resp.Parser
import Calod.Server.Dispatch

/-!
# A connection and its two tasks

`calod-resp/src/cld_srv/connection.rs`. The reader task parses commands off the stream, handles
`AUTH` and `HELLO AUTH`, and sends what passes the gate through a bounded channel; the writer task
executes what it receives. They run side by side, and other connections can mark this one as
closing at any moment. A step is what a task does between two points where it can be interrupted.

* `gate_holds` — before a password was accepted nothing but `AUTH`, `HELLO`, `PING` and `QUIT` is
  executed, as long as the connection is not killed before
* `killed_connection_let_through` — a connection that was killed passes the gate without password
-/

namespace Calod.Server

open Lib Store Resp

variable {C : Type}

/-- A command, as far as the reader tells commands apart. -/
inductive Request (C : Type) where
  | auth (password : String)
  /-- `HELLO`, with the user and the password of its `AUTH` option. -/
  | hello (auth : Option (String × String))
  | ping
  | quit
  | unknown (text : String)
  | other (cmd : C)

/-- `is_auth_command`. -/
def Request.isAuthCommand : Request C → Bool
  | .auth _ | .ping | .hello _ | .quit => true
  | _ => false

/-- What goes through the channel: a command of the client, or an error of the reader's own. -/
inductive Item (C : Type) where
  | client (req : Request C)
  | own (text : String)

/-- Not a command of the client, or one that is allowed without a password. -/
def Item.harmless : Item C → Bool
  | .client req => req.isAuthCommand
  | .own _ => true

inductive ConnectionState where
  | new
  | authenticated
  | closing
  deriving DecidableEq, Repr

/-- Where the reader is. -/
inductive Reader (C : Type) where
  /-- At the head of the loop. -/
  | top
  | reading
  /-- In the loop over the buffer. -/
  | parsing
  /-- The password of this command was accepted. -/
  | accepted (req : Request C)
  /-- At the test for `HELLO` without `AUTH`. -/
  | hello (req : Request C)
  /-- At the test for all commands. -/
  | gate (req : Request C)
  | sending (item : Item C)
  | done

/-- Where the writer is. -/
inductive Writer (C : Type) where
  | receiving
  /-- At the test for a closing connection. -/
  | received (item : Item C)
  /-- In the loop over a batch. -/
  | batch (pending : Option (Item C)) (pendingBytes processed : Nat)
  | flushing (channelClosed : Bool)
  | done

structure ConnectionConfig (C : Type) where
  authRequired : Bool
  maxRequestSize : Nat
  parseF64 : String → Option F64
  /-- `Command::try_from`. -/
  tryFrom : List Value → Except String (Request C)

structure Connection (C : Type) where
  state : ConnectionState
  /-- The bytes that are not parsed yet. -/
  buffer : Bytes
  reader : Reader C
  channel : List (Item C)
  writer : Writer C
  /-- Was a password of this client accepted? -/
  accepted : Bool
  executed : List (Item C)

def Connection.new : Connection C := ⟨.new, [], .top, [], .receiving, false, []⟩

/-- The bound of the channel. -/
def channelCapacity : Nat := 1000

def flushThresholdBytes : Nat := 64 * 1024

def maxBatchCommands : Nat := 64

namespace ConnectionConfig

variable (cfg : ConnectionConfig C)

/-- `parse_command_at_position`. -/
def parseCommand (buffer : Bytes) : Option (Request C × Nat) :=
  match parseValue .standard cfg.parseF64 buffer with
  | .error _ => none
  | .ok (resp, consumed) =>
    let values := match resp with
      | .array values => values
      | _ => [resp]
    match cfg.tryFrom values with
    | .ok req => some (req, consumed)
    | .error e => some (.unknown ("ERR " ++ e), consumed)

/-- The reader's answer to a password. -/
def afterPassword (req : Request C) (accepted : Bool) : Reader C :=
  if !cfg.authRequired then
    .sending (.own ("ERR Client sent AUTH, but no password is set. Did you mean AUTH "
      ++ "<username> <password>?"))
  else if !accepted then .sending (.own "WRONGPASS invalid username-password pair")
  else .accepted req

/-- Where the reader goes with a parsed command. -/
def dispatch (req : Request C) (accepted : Bool) : Reader C :=
  match req with
  | .auth _ | .hello (some _) => cfg.afterPassword req accepted
  | .hello none => .hello req
  | _ => .gate req

end ConnectionConfig

/-! ## Steps -/

/-- What can happen next. -/
inductive ConnectionAction where
  | loop
  /-- The reader gets bytes; none at the end of the stream or after an error. -/
  | read (bytes : Bytes)
  /-- The reader parses a command; if it holds a password, `AuthManager::authenticate` answers
  `accepted`. -/
  | parse (accepted : Bool)
  | setAuthenticated
  | testHello
  | testGate
  | send
  | receive
  | testClosing
  /-- The writer executes a command, and writes a reply of so many bytes unless that fails. -/
  | execute (replyBytes : Nat) (written : Bool)
  | flush (written : Bool)
  /-- The writer forwards a pushed message. -/
  | push (written : Bool)
  /-- `CLIENT KILL` by another connection. -/
  | kill
  /-- `process`, once one of the tasks has ended. -/
  | teardown

namespace Connection

variable (cfg : ConnectionConfig C)

/-- The next command of a batch, and the rest of the channel. -/
def nextItem (c : Connection C) (pending : Option (Item C)) : Option (Item C × List (Item C)) :=
  match pending, c.channel with
  | some item, channel => some (item, channel)
  | none, item :: channel => some (item, channel)
  | none, [] => none

/-- One command of a batch, or the end of the batch. -/
def executeStep (c : Connection C) (pending : Option (Item C)) (pendingBytes processed : Nat)
    (replyBytes : Nat) (written : Bool) : Connection C :=
  match c.nextItem pending with
  | none => { c with writer := .flushing (c.reader matches .done) }
  | some (item, channel) =>
    let pendingBytes := pendingBytes + replyBytes
    let processed := processed + 1
    { c with
      channel := channel
      executed := c.executed ++ [item]
      writer :=
        if !written then .done
        else if flushThresholdBytes ≤ pendingBytes ∨ maxBatchCommands ≤ processed then
          .flushing false
        else .batch none pendingBytes processed }

/-- The two tasks, the process that waits for them and the other connections. -/
def step (c : Connection C) : ConnectionAction → Option (Connection C)
  | .loop =>
    match c.reader with
    | .top =>
      if c.state = .closing ∨ cfg.maxRequestSize ≤ c.buffer.length then
        some { c with reader := .done }
      else some { c with reader := .reading }
    | _ => none
  | .read bytes =>
    match c.reader with
    | .reading =>
      if bytes.isEmpty then some { c with reader := .done }
      else some { c with buffer := c.buffer ++ bytes, reader := .parsing }
    | _ => none
  | .parse accepted =>
    match c.reader with
    | .parsing =>
      match cfg.parseCommand c.buffer with
      | none => some { c with reader := .top }
      | some (req, consumed) =>
        let reader := cfg.dispatch req accepted
        some { c with
          buffer := c.buffer.drop consumed
          reader := reader
          accepted := c.accepted || reader matches .accepted _ }
    | _ => none
  | .setAuthenticated =>
    match c.reader with
    | .accepted req => some { c with state := .authenticated, reader := .gate req }
    | _ => none
  | .testHello =>
    match c.reader with
    | .hello req =>
      if c.state = .new ∧ cfg.authRequired then
        some { c with reader := .sending (.own ("NOAUTH HELLO must be called with the client "
          ++ "already authenticated, otherwise the HELLO <proto> AUTH <user> <pass> option can be "
          ++ "used to authenticate the client and select the RESP protocol version at the same "
          ++ "time")) }
      else some { c with reader := .gate req }
    | _ => none
  | .testGate =>
    match c.reader with
    | .gate req =>
      if c.state = .new ∧ !req.isAuthCommand ∧ cfg.authRequired then
        some { c with reader := .sending (.own "NOAUTH Authentication required.") }
      else some { c with reader := .sending (.client req) }
    | _ => none
  | .send =>
    match c.reader, c.writer with
    | .sending _, .done => some { c with reader := .done }
    | .sending item, _ =>
      if c.channel.length < channelCapacity then
        some { c with channel := c.channel ++ [item], reader := .parsing }
      else none
    | _, _ => none
  | .receive =>
    match c.writer, c.channel, c.reader with
    | .receiving, item :: channel, _ => some { c with channel := channel, writer := .received item }
    | .receiving, [], .done => some { c with writer := .done }
    | _, _, _ => none
  | .testClosing =>
    match c.writer with
    | .received item =>
      if c.state = .closing then some { c with writer := .done }
      else some { c with writer := .batch (some item) 0 0 }
    | _ => none
  | .execute replyBytes written =>
    match c.writer with
    | .batch pending pendingBytes processed =>
      some (c.executeStep pending pendingBytes processed replyBytes written)
    | _ => none
  | .flush written =>
    match c.writer with
    | .flushing channelClosed =>
      some { c with writer := if written && !channelClosed then .receiving else .done }
    | _ => none
  | .push written =>
    match c.writer with
    | .receiving => some { c with writer := if written then .receiving else .done }
    | _ => none
  | .kill => some { c with state := .closing }
  | .teardown =>
    match c.reader, c.writer with
    | .done, _ | _, .done => some { c with state := .closing }
    | _, _ => none

end Connection

/-! ## Nothing passes the gate -/

/-- The command that the reader waits to send. -/
def Reader.held : Reader C → List (Item C)
  | .sending item => [item]
  | _ => []

/-- The command that the writer has taken out of the channel. -/
def Writer.held : Writer C → List (Item C)
  | .received item => [item]
  | .batch (some item) _ _ => [item]
  | _ => []

namespace Connection

variable {cfg : ConnectionConfig C} {c c' : Connection C}

/-- The commands between the gate and their execution. -/
def inFlight (c : Connection C) : List (Item C) := c.reader.held ++ (c.channel ++ c.writer.held)

/-- No password was accepted, and nothing that needs one is on its way. A connection that is not
new any more has lost its reader, or its writer. -/
structure Shut (c : Connection C) : Prop where
  executed : ∀ item ∈ c.executed, item.harmless = true
  unaccepted : ∀ req, c.reader ≠ .accepted req
  closed : c.writer = .done ∨
    (c.state = .new ∨ c.reader = .done) ∧ ∀ item ∈ c.inFlight, item.harmless = true

theorem shut_new : Shut (new : Connection C) where
  executed := by simp [new]
  unaccepted _ h := by cases h
  closed := .inr ⟨.inl rfl, by simp [new, inFlight, Reader.held, Writer.held]⟩

namespace Shut

/-- The reader moves on: what it holds then has to be harmless if the connection is new. -/
theorem move_reader (h : Shut c) (hd : c.reader ≠ .done) (buffer : Bytes) {r : Reader C}
    (hacc : ∀ req, r ≠ .accepted req)
    (hheld : c.state = .new → ∀ item ∈ r.held, item.harmless = true) :
    Shut { c with buffer := buffer, reader := r } := by
  refine ⟨h.executed, hacc, h.closed.imp_right ?_⟩
  rintro ⟨hnew | hdone, hin⟩
  · refine ⟨.inl hnew, fun item hi => ?_⟩
    rcases List.mem_append.mp hi with hi | hi
    · exact hheld hnew item hi
    · exact hin item (List.mem_append_right _ hi)
  · exact absurd hdone hd

/-- The writer moves on with what was in flight. -/
theorem move_writer (h : Shut c) (hw : c.writer ≠ .done) {channel executed : List (Item C)}
    {w : Writer C} (hch : ∀ item ∈ channel, item ∈ c.inFlight)
    (hheld : ∀ item ∈ w.held, item ∈ c.inFlight)
    (hex : ∀ item ∈ executed, item ∈ c.executed ∨ item ∈ c.inFlight) :
    Shut { c with channel := channel, writer := w, executed := executed } := by
  rcases h.closed with hdone | ⟨hst, hin⟩
  · exact absurd hdone hw
  refine ⟨fun item hi => ?_, h.unaccepted, .inr ⟨hst, fun item hi => ?_⟩⟩
  · exact (hex item hi).elim (h.executed item) (hin item)
  · rcases List.mem_append.mp hi with hi | hi
    · exact hin item (List.mem_append_left _ hi)
    · rcases List.mem_append.mp hi with hi | hi
      · exact hin item (hch item hi)
      · exact hin item (hheld item hi)

end Shut

/-- What a step can do. -/
inductive Move (cfg : ConnectionConfig C) (c : Connection C) : Connection C → Prop where
  | reader (hd : c.reader ≠ .done) (buffer : Bytes) {r : Reader C}
      (hacc : ∀ req, r ≠ .accepted req)
      (hheld : cfg.authRequired = true → c.state = .new → ∀ item ∈ r.held, item.harmless = true) :
      Move cfg c { c with buffer := buffer, reader := r }
  | accept (buffer : Bytes) (r : Reader C) :
      Move cfg c { c with buffer := buffer, reader := r, accepted := true }
  | setAuthenticated {req : Request C} (h : c.reader = .accepted req) :
      Move cfg c { c with state := .authenticated, reader := .gate req }
  | send {item : Item C} (h : c.reader = .sending item) :
      Move cfg c { c with channel := c.channel ++ [item], reader := .parsing }
  | writer (hw : c.writer ≠ .done) {channel executed : List (Item C)} {w : Writer C}
      (hch : ∀ item ∈ channel, item ∈ c.inFlight) (hheld : ∀ item ∈ w.held, item ∈ c.inFlight)
      (hex : ∀ item ∈ executed, item ∈ c.executed ∨ item ∈ c.inFlight) :
      Move cfg c { c with channel := channel, writer := w, executed := executed }
  | closing (h : c.reader = .done ∨ c.writer = .done) : Move cfg c { c with state := .closing }

/-- A writer that only moves on. -/
theorem Move.writer_to (hw : c.writer ≠ .done) {w : Writer C}
    (hheld : ∀ item ∈ w.held, item ∈ c.writer.held) : Move cfg c { c with writer := w } :=
  .writer hw (fun _ hi => List.mem_append_right _ (List.mem_append_left _ hi))
    (fun item hi => List.mem_append_right _ (List.mem_append_right _ (hheld item hi)))
    fun _ hi => .inl hi

/-- A reader that only moves on, with nothing in its hands. -/
theorem Move.reader_to (hd : c.reader ≠ .done) (buffer : Bytes) {r : Reader C}
    (hacc : ∀ req, r ≠ .accepted req) (hheld : r.held = []) :
    Move cfg c { c with buffer := buffer, reader := r } :=
  .reader hd buffer hacc fun _ _ item hi => by simp [hheld] at hi

theorem dispatch_held (cfg : ConnectionConfig C) (req : Request C) (accepted : Bool) :
    ∀ item ∈ (cfg.dispatch req accepted).held, item.harmless = true := by
  have hpass : ∀ item ∈ (cfg.afterPassword req accepted).held, item.harmless = true := by
    unfold ConnectionConfig.afterPassword
    split
    · simp [Reader.held, Item.harmless]
    split
    · simp [Reader.held, Item.harmless]
    · simp [Reader.held]
  cases req with
  | auth password => exact hpass
  | hello auth =>
    cases auth with
    | none => simp [ConnectionConfig.dispatch, Reader.held]
    | some auth => exact hpass
  | _ => simp [ConnectionConfig.dispatch, Reader.held]

theorem move_parse {accepted : Bool} (hs : step cfg c (.parse accepted) = some c') :
    Move cfg c c' := by
  simp only [step] at hs
  split at hs
  · next hr =>
    have hd : c.reader ≠ .done := by simp [hr]
    split at hs
    · cases hs
      exact .reader_to hd c.buffer (by simp) rfl
    · next req consumed _ =>
      cases hs
      have hheld := dispatch_held cfg req accepted
      cases hdis : cfg.dispatch req accepted with
      | accepted req' =>
        simp only [Bool.or_true]
        exact .accept _ _
      | _ =>
        simp only [Bool.or_false]
        exact .reader hd _ (by simp) fun _ _ => hdis ▸ hheld
  · cases hs

theorem move_testGate (hs : step cfg c .testGate = some c') : Move cfg c c' := by
  simp only [step] at hs
  split at hs
  · next req hr =>
    have hd : c.reader ≠ .done := by simp [hr]
    split at hs
    · cases hs
      exact .reader hd c.buffer (by simp) (by simp [Reader.held, Item.harmless])
    · next hgate =>
      cases hs
      refine .reader hd c.buffer (by simp) fun hreq hnew item hi => ?_
      rw [List.mem_singleton.mp hi]
      by_contra hharm
      exact hgate ⟨hnew, by simpa [Item.harmless] using hharm, hreq⟩
  · cases hs

theorem move_send (hs : step cfg c .send = some c') : Move cfg c c' := by
  simp only [step] at hs
  split at hs
  · next hr _ =>
    cases hs
    exact .reader_to (by simp [hr]) c.buffer (by simp) rfl
  · next hr _ =>
    split at hs
    · cases hs
      exact .send hr
    · cases hs
  · cases hs

theorem move_receive (hs : step cfg c .receive = some c') : Move cfg c c' := by
  simp only [step] at hs
  split at hs
  · next hw hch =>
    cases hs
    refine .writer (by simp [hw]) (fun i hi => ?_) (fun i hi => ?_) fun i hi => .inl hi
    · exact List.mem_append_right _ (List.mem_append_left _ (hch ▸ List.mem_cons_of_mem _ hi))
    · rw [List.mem_singleton.mp hi]
      exact List.mem_append_right _ (List.mem_append_left _ (hch ▸ List.mem_cons_self))
  · next hw _ _ =>
    cases hs
    exact .writer_to (by simp [hw]) (by simp [Writer.held])
  · cases hs

theorem move_execute {replyBytes : Nat} {written : Bool}
    (hs : step cfg c (.execute replyBytes written) = some c') : Move cfg c c' := by
  simp only [step] at hs
  split at hs
  · next pending pendingBytes processed hw =>
    have hwd : c.writer ≠ .done := by simp [hw]
    cases hs
    unfold executeStep
    split
    · exact .writer_to hwd (by simp [Writer.held])
    · next item channel hnext =>
      have hitem : item ∈ c.inFlight ∧ ∀ i ∈ channel, i ∈ c.inFlight := by
        unfold nextItem at hnext
        split at hnext
        · cases hnext
          refine ⟨List.mem_append_right _ (List.mem_append_right _ ?_), fun i hi => ?_⟩
          · simp [hw, Writer.held]
          · exact List.mem_append_right _ (List.mem_append_left _ hi)
        · next hch =>
          cases hnext
          refine ⟨List.mem_append_right _ (List.mem_append_left _ (hch ▸ List.mem_cons_self)), ?_⟩
          exact fun i hi =>
            List.mem_append_right _ (List.mem_append_left _ (hch ▸ List.mem_cons_of_mem _ hi))
        · cases hnext
      refine .writer hwd hitem.2 (fun i hi => ?_) fun i hi => ?_
      · split at hi
        · simp [Writer.held] at hi
        split at hi
        · simp [Writer.held] at hi
        · simp [Writer.held] at hi
      · rcases List.mem_append.mp hi with hi | hi
        · exact .inl hi
        · rw [List.mem_singleton.mp hi]
          exact .inr hitem.1
  · cases hs

/-- **What the steps do**: every step but a kill is one of six moves. -/
theorem move_of_step {a : ConnectionAction} (hk : a ≠ .kill) (hs : step cfg c a = some c') :
    Move cfg c c' := by
  cases a with
  | loop =>
    simp only [step] at hs
    split at hs
    · next hr =>
      have hd : c.reader ≠ .done := by simp [hr]
      split at hs
      · cases hs
        exact .reader_to hd c.buffer (by simp) rfl
      · cases hs
        exact .reader_to hd c.buffer (by simp) rfl
    · cases hs
  | read bytes =>
    simp only [step] at hs
    split at hs
    · next hr =>
      have hd : c.reader ≠ .done := by simp [hr]
      split at hs
      · cases hs
        exact .reader_to hd c.buffer (by simp) rfl
      · cases hs
        exact .reader_to hd _ (by simp) rfl
    · cases hs
  | parse accepted => exact move_parse hs
  | setAuthenticated =>
    simp only [step] at hs
    split at hs
    · next hr =>
      cases hs
      exact .setAuthenticated hr
    · cases hs
  | testHello =>
    simp only [step] at hs
    split at hs
    · next hr =>
      have hd : c.reader ≠ .done := by simp [hr]
      split at hs
      · cases hs
        exact .reader hd c.buffer (by simp) (by simp [Reader.held, Item.harmless])
      · cases hs
        exact .reader_to hd c.buffer (by simp) rfl
    · cases hs
  | testGate => exact move_testGate hs
  | send => exact move_send hs
  | receive => exact move_receive hs
  | testClosing =>
    simp only [step] at hs
    split at hs
    · next hw =>
      have hwd : c.writer ≠ .done := by simp [hw]
      split at hs
      · cases hs
        exact .writer_to hwd (by simp [Writer.held])
      · cases hs
        exact .writer_to hwd (by simp [hw, Writer.held])
    · cases hs
  | execute replyBytes written => exact move_execute hs
  | flush | push =>
    simp only [step] at hs
    split at hs
    · next hw =>
      cases hs
      refine .writer_to (by simp [hw]) fun i hi => ?_
      split at hi
      · simp [Writer.held] at hi
      · simp [Writer.held] at hi
    · cases hs
  | kill => exact absurd rfl hk
  | teardown =>
    simp only [step] at hs
    split at hs
    · next hr =>
      cases hs
      exact .closing (.inl hr)
    · next hw _ =>
      cases hs
      exact .closing (.inr hw)
    · cases hs

/-- A password was accepted, or nothing that needs one gets through. -/
def Guarded (c : Connection C) : Prop := c.accepted = true ∨ Shut c

theorem Move.guarded (hm : Move cfg c c') (hreq : cfg.authRequired = true) (h : Guarded c) :
    Guarded c' := by
  cases hm with
  | reader hd buffer hacc hheld => exact h.imp id fun h => h.move_reader hd buffer hacc (hheld hreq)
  | accept buffer r => exact .inl rfl
  | setAuthenticated hr => exact h.imp id fun h => absurd hr (h.unaccepted _)
  | @send item hr =>
    refine h.imp id fun h => ⟨h.executed, by simp, h.closed.imp_right ?_⟩
    rintro ⟨hst, hin⟩
    refine ⟨hst.imp id fun hd => ?_, fun i hi => hin i ?_⟩
    · rw [hr] at hd
      cases hd
    · simp only [inFlight, hr, Reader.held] at hi ⊢
      simp only [List.nil_append, List.mem_append] at hi ⊢
      tauto
  | writer hw hch hheld hex => exact h.imp id fun h => h.move_writer hw hch hheld hex
  | closing hdone =>
    refine h.imp id fun h => ⟨h.executed, h.unaccepted, ?_⟩
    rcases hdone with hr | hw
    · exact h.closed.imp_right fun hc => ⟨.inr hr, hc.2⟩
    · exact .inl hw

theorem guarded_of_reach (hreq : cfg.authRequired = true)
    (hr : Reach (step cfg) (fun c a => a = .kill → c.accepted = true) new c) : Guarded c := by
  refine hr.invariant (.inr shut_new) fun c a c' h hp hs => ?_
  by_cases hk : a = .kill
  · subst hk
    cases hs
    exact .inl (hp rfl)
  · exact (move_of_step hk hs).guarded hreq h

/-- **The gate holds** for a connection that is not killed before it has given the password: what
the store executes for it before is harmless. -/
theorem gate_holds (hreq : cfg.authRequired = true)
    (hr : Reach (step cfg) (fun c a => a = .kill → c.accepted = true) new c)
    (hacc : c.accepted = false) : ∀ item ∈ c.executed, item.harmless = true := by
  rcases guarded_of_reach hreq hr with h | h
  · rw [hacc] at h
    cases h
  · exact h.executed

namespace Sample

/-- A server with a password; its command parser knows `PING` and `GET`. -/
def withPassword : ConnectionConfig Command where
  authRequired := true
  maxRequestSize := 1024
  parseF64 _ := none
  tryFrom
    | [.bulkString name] =>
      if name = Serde.utf8 "PING" then .ok .ping else .error "wrong number of arguments"
    | [.bulkString name, .bulkString key] =>
      if name = Serde.utf8 "GET" then .ok (.other (.read .get ((fromUtf8 key).getD "")))
      else .error "wrong number of arguments"
    | _ => .error "Empty Command"

/-- `PING`, then `GET k`. -/
def stream : Bytes :=
  Serde.utf8 "*1\r\n$4\r\nPING\r\n*2\r\n$3\r\nGET\r\n$1\r\nk\r\n"

/-- The writer has begun a batch with the `PING`. -/
def begin : List ConnectionAction :=
  [.loop, .read stream, .parse false, .testGate, .send, .receive, .testClosing]

/-- The reader takes the `GET` through the gate, and the batch goes on. -/
def finish : List ConnectionAction :=
  [.parse false, .testGate, .send, .execute 7 true, .execute 30 true]

end Sample

theorem gate_holds_ping_get : ∃ c : Connection Command,
    c.executed.length = 2 ∧ ∀ item ∈ c.executed, item.harmless = true := by
  have hrun : (run (step Sample.withPassword) (fun _ a => !(a matches .kill)) new
      (Sample.begin ++ Sample.finish)).map (fun c => (c.executed.length, c.accepted))
      = some (2, false) := by
    decide +kernel
  obtain ⟨c, hr, hc⟩ := exists_reach_of_run hrun
  have hreach : Reach (step Sample.withPassword) (fun c a => a = .kill → c.accepted = true)
      new c := by
    refine hr.mono fun c a ha hk => ?_
    rw [hk] at ha
    cases ha
  obtain ⟨hlen, hacc⟩ := Prod.mk.inj hc
  exact ⟨c, hlen, gate_holds rfl hreach hacc⟩

/-- The connection is killed while the writer is in a batch: the state is not `New` any more, so
the gate lets `GET` through, and the writer does not look at the state before the batch ends. -/
theorem killed_connection_let_through :
    ∃ c, Reach (step Sample.withPassword) (fun _ _ => true) new c ∧
    (c.accepted = false ∧ c.executed.map Item.harmless = [true, false]) := by
  have hrun : (run (step Sample.withPassword) (fun _ _ => true) new
      (Sample.begin ++ .kill :: Sample.finish)).map
        (fun c => (c.accepted, c.executed.map Item.harmless)) = some (false, [true, false]) := by
    decide +kernel
  obtain ⟨c, hr, hc⟩ := exists_reach_of_run hrun
  exact ⟨c, hr, Prod.mk.inj hc⟩

end Connection

end Calod.Server
