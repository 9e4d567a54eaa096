import Calod.Resp.Extension
import Calod.Resp.RoundTrip
import Calod.Server.Connection

/-!
# Commands off a stream

The reader task puts what it receives behind what it has not parsed yet, parses as many commands as
it can, and waits for more. How a stream is cut into reads does not matter for the commands, since
the parser's answers are stable. But an answer other than a value counts as a command of which bytes
are missing, whatever the error is.

* `same_commands_for_every_cut` — of complete frames the reader parses the same commands for every
  way of cutting them
* `malformed_ends` — what is not the start of any frame ends the connection if it is as long as a
  request may be
* `reads_on_iff` — and otherwise the reader reads on behind it
-/

namespace Calod.Server

open Lib Store Resp Server.Sample Connection.Sample ConnectionConfig

variable {C : Type} {cfg : ConnectionConfig C} {c c' : Connection C} {a : ConnectionAction}

/-! ## The reader's steps -/

/-- The bytes that a step takes off the stream. -/
def ConnectionAction.bytes : ConnectionAction → Bytes
  | .read bytes => bytes
  | _ => []

/-- At the head of the loop, or waiting for bytes. -/
def Reader.waits : Reader C → Bool
  | .top | .reading => true
  | _ => false

/-- With a command that was parsed. -/
def Reader.passing : Reader C → Bool
  | .accepted _ | .hello _ | .gate _ | .sending _ => true
  | _ => false

namespace Connection

/-- The command that a step parses. -/
def parsedBy (cfg : ConnectionConfig C) (c : Connection C) : ConnectionAction → List (Request C)
  | .parse _ => ((cfg.parseCommand c.buffer).map Prod.fst).toList
  | _ => []

/-- What a step is for the reader. -/
inductive Moves (cfg : ConnectionConfig C) (c c' : Connection C) : ConnectionAction → Prop
  | stop : c.reader = .top → c.state = .closing ∨ cfg.maxRequestSize ≤ c.buffer.length →
      c'.reader = .done → c'.buffer = c.buffer → c'.state = c.state → Moves cfg c c' .loop
  | again : c.reader = .top → c.state ≠ .closing → c.buffer.length < cfg.maxRequestSize →
      c'.reader = .reading → c'.buffer = c.buffer → Moves cfg c c' .loop
  | read {bytes : Bytes} : c.reader = .reading → c'.reader = .parsing ∨ c'.reader = .done →
      c'.buffer = c.buffer ++ bytes → Moves cfg c c' (.read bytes)
  | wait {accepted : Bool} : c.reader = .parsing → cfg.parseCommand c.buffer = none →
      c'.reader = .top → c'.buffer = c.buffer → c'.state = c.state →
      Moves cfg c c' (.parse accepted)
  | take {accepted : Bool} {req : Request C} {n : Nat} : c.reader = .parsing →
      cfg.parseCommand c.buffer = some (req, n) → c'.reader = cfg.dispatch req accepted →
      c'.buffer = c.buffer.drop n → Moves cfg c c' (.parse accepted)
  | pass {a : ConnectionAction} : c.reader.passing = true → c'.reader.waits = false →
      c'.buffer = c.buffer → a.bytes = [] → c.parsedBy cfg a = [] → Moves cfg c c' a
  | other {a : ConnectionAction} : c'.reader = c.reader → c'.buffer = c.buffer →
      (c.state = .closing → c'.state = .closing) → a.bytes = [] → c.parsedBy cfg a = [] →
      Moves cfg c c' a

theorem moves_loop (h : c.step cfg .loop = some c') : Moves cfg c c' .loop := by
  rw [step] at h
  split at h
  · next htop =>
    split at h
    · next hend =>
      cases h
      exact .stop htop hend rfl rfl rfl
    · next hend =>
      obtain ⟨hstate, hsize⟩ := not_or.mp hend
      cases h
      exact .again htop hstate (Nat.lt_of_not_le hsize) rfl rfl
  · cases h

theorem moves_read {bytes : Bytes} (h : c.step cfg (.read bytes) = some c') :
    Moves cfg c c' (.read bytes) := by
  rw [step] at h
  split at h
  · next hreading =>
    split at h
    · next hempty =>
      cases h
      refine .read hreading (.inr rfl) ?_
      rw [List.isEmpty_iff.mp hempty, List.append_nil]
    · cases h
      exact .read hreading (.inl rfl) rfl
  · cases h

theorem moves_parse {accepted : Bool} (h : c.step cfg (.parse accepted) = some c') :
    Moves cfg c c' (.parse accepted) := by
  rw [step] at h
  split at h
  · next hparsing =>
    split at h
    · next hnone =>
      cases h
      exact .wait hparsing hnone rfl rfl rfl
    · next hsome =>
      cases h
      exact .take hparsing hsome rfl rfl
  · cases h

/-- The steps of the reader between two commands. -/
theorem moves_pass (h : c.step cfg a = some c')
    (ha : a = .setAuthenticated ∨ a = .testHello ∨ a = .testGate ∨ a = .send) :
    Moves cfg c c' a := by
  rcases ha with rfl | rfl | rfl | rfl
  · rw [step] at h
    split at h
    · next hr =>
      cases h
      exact .pass (by rw [hr]; rfl) rfl rfl rfl rfl
    · cases h
  · rw [step] at h
    split at h
    · next hr =>
      split at h
      · cases h
        exact .pass (by rw [hr]; rfl) rfl rfl rfl rfl
      · cases h
        exact .pass (by rw [hr]; rfl) rfl rfl rfl rfl
    · cases h
  · rw [step] at h
    split at h
    · next hr =>
      split at h
      · cases h
        exact .pass (by rw [hr]; rfl) rfl rfl rfl rfl
      · cases h
        exact .pass (by rw [hr]; rfl) rfl rfl rfl rfl
    · cases h
  · rw [step] at h
    split at h
    · next hr _ =>
      cases h
      exact .pass (by rw [hr]; rfl) rfl rfl rfl rfl
    · next hr _ =>
      split at h
      · cases h
        exact .pass (by rw [hr]; rfl) rfl rfl rfl rfl
      · cases h
    · cases h

/-- The writer leaves the reader and its buffer alone. -/
theorem executeStep_reader (c : Connection C) (pending : Option (Item C))
    (pendingBytes processed replyBytes : Nat) (written : Bool) :
    let c' := c.executeStep pending pendingBytes processed replyBytes written
    c'.reader = c.reader ∧ c'.buffer = c.buffer ∧ c'.state = c.state := by
  rw [executeStep]
  split
  · exact ⟨rfl, rfl, rfl⟩
  · exact ⟨rfl, rfl, rfl⟩

/-- Everything that a step can be for the reader. -/
theorem step_moves (h : c.step cfg a = some c') : Moves cfg c c' a := by
  cases a with
  | loop => exact moves_loop h
  | read bytes => exact moves_read h
  | parse accepted => exact moves_parse h
  | setAuthenticated => exact moves_pass h (.inl rfl)
  | testHello => exact moves_pass h (.inr (.inl rfl))
  | testGate => exact moves_pass h (.inr (.inr (.inl rfl)))
  | send => exact moves_pass h (.inr (.inr (.inr rfl)))
  | receive =>
    rw [step] at h
    split at h
    · cases h
      exact .other rfl rfl id rfl rfl
    · cases h
      exact .other rfl rfl id rfl rfl
    · cases h
  | testClosing =>
    rw [step] at h
    split at h
    · split at h
      · cases h
        exact .other rfl rfl id rfl rfl
      · cases h
        exact .other rfl rfl id rfl rfl
    · cases h
  | execute replyBytes written =>
    rw [step] at h
    split at h
    · obtain ⟨hr, hb, hs⟩ := c.executeStep_reader _ _ _ replyBytes written
      cases h
      exact .other hr hb (fun h => hs.trans h) rfl rfl
    · cases h
  | flush | push =>
    rw [step] at h
    split at h
    · cases h
      exact .other rfl rfl id rfl rfl
    · cases h
  | kill =>
    cases h
    exact .other rfl rfl (fun _ => rfl) rfl rfl
  | teardown =>
    rw [step] at h
    split at h
    · cases h
      exact .other rfl rfl (fun _ => rfl) rfl rfl
    · cases h
      exact .other rfl rfl (fun _ => rfl) rfl rfl
    · cases h

end Connection

/-! ## Complete frames -/

variable {frame : Bytes} {frames : List Bytes}

namespace ConnectionConfig

/-- The bytes of exactly one value. -/
def Complete (cfg : ConnectionConfig C) (frame : Bytes) : Prop :=
  ∃ v, parseValue .standard cfg.parseF64 frame = .ok (v, frame.length)

/-- The commands in frames, one after the other. -/
def commands (cfg : ConnectionConfig C) (frames : List Bytes) : List (Request C) :=
  frames.filterMap fun frame => (cfg.parseCommand frame).map Prod.fst

theorem commands_append (frames frames' : List Bytes) :
    cfg.commands (frames ++ frames') = cfg.commands frames ++ cfg.commands frames' :=
  List.filterMap_append

/-- A complete frame holds one command, whatever follows. -/
theorem Complete.parseCommand (h : cfg.Complete frame) :
    ∃ req, ∀ more, cfg.parseCommand (frame ++ more) = some (req, frame.length) := by
  obtain ⟨v, hv⟩ := h
  have hne : parseValue .standard cfg.parseF64 frame ≠ .error .incomplete := by
    rw [hv]
    exact fun h => nomatch h
  have hmore : ∀ more, cfg.parseCommand (frame ++ more) = cfg.parseCommand frame := by
    intro more
    unfold ConnectionConfig.parseCommand
    rw [parseValue_append hne]
  have hsome : ∃ req, cfg.parseCommand frame = some (req, frame.length) := by
    unfold ConnectionConfig.parseCommand
    rw [hv]
    dsimp only
    split
    · exact ⟨_, rfl⟩
    · exact ⟨_, rfl⟩
  obtain ⟨req, hreq⟩ := hsome
  exact ⟨req, fun more => (hmore more).trans hreq⟩

theorem Complete.length_pos (h : cfg.Complete frame) : 0 < frame.length := by
  refine List.length_pos_of_ne_nil ?_
  rintro rfl
  obtain ⟨v, hv⟩ := h
  cases hv

/-- The start of a complete frame holds none. -/
theorem Complete.parseCommand_take (h : cfg.Complete frame) {k : Nat} (hk : k < frame.length) :
    cfg.parseCommand (frame.take k) = none := by
  obtain ⟨v, hv⟩ := h
  unfold ConnectionConfig.parseCommand
  rw [parseValue_take hv hk]

/-- A command that was parsed is passed on. -/
theorem dispatch_waits (req : Request C) (accepted : Bool) :
    (cfg.dispatch req accepted).waits = false := by
  have hpassword : (cfg.afterPassword req accepted).waits = false := by
    unfold afterPassword
    split
    · rfl
    split
    · rfl
    · rfl
  unfold dispatch
  split
  · exact hpassword
  · exact hpassword
  · rfl
  · rfl

/-- What the buffer holds of the frames that are not parsed yet: nothing that is complete, or the
whole of the first one. -/
theorem parseCommand_of_frames {todo : List Bytes} (h : ∀ f ∈ todo, cfg.Complete f)
    {buffer rest : Bytes} (hsplit : buffer ++ rest = todo.flatten) :
    (cfg.parseCommand buffer = none ∧ ∀ f ∈ todo.head?, buffer.length < f.length) ∨
    ∃ f later more req, todo = f :: later ∧ buffer = f ++ more ∧
      more ++ rest = later.flatten ∧ cfg.parseCommand buffer = some (req, f.length) ∧
      cfg.commands [f] = [req] := by
  cases todo with
  | nil =>
    obtain ⟨rfl, -⟩ := List.append_eq_nil_iff.mp hsplit
    exact .inl ⟨rfl, fun f hf => by cases hf⟩
  | cons f later =>
    have hf := h f List.mem_cons_self
    rw [List.flatten_cons] at hsplit
    by_cases hlen : buffer.length < f.length
    · have htake : buffer = f.take buffer.length := by
        have := congrArg (List.take buffer.length) hsplit
        rwa [List.take_left, List.take_append_of_le_length hlen.le] at this
      refine .inl ⟨?_, fun g hg => ?_⟩
      · rw [htake]
        exact hf.parseCommand_take hlen
      · cases hg
        exact hlen
    · have hdrop : buffer = f ++ buffer.drop f.length := by
        have := congrArg (List.take f.length) hsplit
        rw [List.take_left, List.take_append_of_le_length (by omega)] at this
        conv_lhs => rw [← List.take_append_drop f.length buffer, this]
      obtain ⟨req, hreq⟩ := hf.parseCommand
      refine .inr ⟨f, later, buffer.drop f.length, req, rfl, hdrop, ?_, ?_, ?_⟩
      · rw [hdrop, List.append_assoc] at hsplit
        exact List.append_cancel_left hsplit
      · rw [hdrop]
        exact hreq _
      · have := hreq []
        rw [List.append_nil] at this
        simp [commands, this]

end ConnectionConfig

/-! ## Every way of cutting the stream -/

/-- A connection, the bytes it has received and the commands that were parsed. -/
structure Heard (C : Type) where
  conn : Connection C
  received : Bytes
  parsed : List (Request C)

namespace Heard

def new : Heard C := ⟨.new, [], []⟩

def step (cfg : ConnectionConfig C) (h : Heard C) (a : ConnectionAction) : Option (Heard C) :=
  (h.conn.step cfg a).map fun c =>
    ⟨c, h.received ++ a.bytes, h.parsed ++ h.conn.parsedBy cfg a⟩

/-- Of the frames on the stream some are parsed, and the buffer starts with the next one; while the
reader waits that one is not complete. -/
def Inv (cfg : ConnectionConfig C) (frames : List Bytes) (h : Heard C) : Prop :=
  ∀ rest, h.received ++ rest = frames.flatten → ∃ done todo, frames = done ++ todo ∧
    h.parsed = cfg.commands done ∧ h.conn.buffer ++ rest = todo.flatten ∧
    (h.conn.reader.waits = true → ∀ f ∈ todo.head?, h.conn.buffer.length < f.length)

theorem inv_new (hframes : ∀ f ∈ frames, cfg.Complete f) : Inv cfg frames (new : Heard C) := by
  intro rest hrest
  refine ⟨[], frames, rfl, rfl, hrest, fun _ f hf => ?_⟩
  exact (hframes f (List.mem_of_mem_head? hf)).length_pos

/-- **One step.** Only parsing moves on in the frames, and only a complete one is parsed. -/
theorem Inv.step (hframes : ∀ f ∈ frames, cfg.Complete f) {h h' : Heard C} {a : ConnectionAction}
    (hinv : Inv cfg frames h) (hstep : h.step cfg a = some h') : Inv cfg frames h' := by
  obtain ⟨c', hc', rfl⟩ := Option.map_eq_some_iff.mp hstep
  intro rest hrest
  rw [List.append_assoc] at hrest
  obtain ⟨done, todo, hsplit, hparsed, hbuffer, hwaits⟩ := hinv _ hrest
  have htodo : ∀ f ∈ todo, cfg.Complete f := fun f hf =>
    hframes f (hsplit ▸ List.mem_append_right _ hf)
  -- a step that neither reads nor parses
  have keep (hbytes : a.bytes = []) (hby : h.conn.parsedBy cfg a = [])
      (hb : c'.buffer = h.conn.buffer)
      (hw : c'.reader.waits = true → h.conn.reader.waits = true) :
      ∃ done todo, frames = done ++ todo ∧
        h.parsed ++ h.conn.parsedBy cfg a = cfg.commands done ∧
        c'.buffer ++ rest = todo.flatten ∧
        (c'.reader.waits = true → ∀ f ∈ todo.head?, c'.buffer.length < f.length) := by
    rw [hbytes] at hbuffer
    rw [hby, List.append_nil, hb]
    exact ⟨done, todo, hsplit, hparsed, hbuffer, fun h => hwaits (hw h)⟩
  cases Connection.step_moves hc' with
  | stop htop _ _ hb | again htop _ _ _ hb => exact keep rfl rfl hb fun _ => by rw [htop]; rfl
  | pass hpassing hw hb hbytes hby => exact keep hbytes hby hb fun h => by rw [hw] at h; cases h
  | other hr hb _ hbytes hby => exact keep hbytes hby hb fun h => hr ▸ h
  | read hreading hr hb =>
    refine ⟨done, todo, hsplit, (List.append_nil _).trans hparsed, ?_, fun hw => ?_⟩
    · rw [hb, List.append_assoc]
      exact hbuffer
    · rcases hr with hr | hr
      · rw [hr] at hw
        cases hw
      · rw [hr] at hw
        cases hw
  | wait hparsing hnone hr hb _ =>
    rcases parseCommand_of_frames htodo hbuffer with ⟨-, hlt⟩ | hsome
    · rw [hb]
      refine ⟨done, todo, hsplit, ?_, hbuffer, fun _ => hlt⟩
      simp [Connection.parsedBy, hnone, hparsed]
    · obtain ⟨f, later, more, req, -, -, -, hreq, -⟩ := hsome
      rw [hnone] at hreq
      cases hreq
  | take hparsing hsome hr hb =>
    rcases parseCommand_of_frames htodo hbuffer with ⟨hnone, -⟩ | hframe
    · rw [hnone] at hsome
      cases hsome
    · obtain ⟨f, later, more, req, rfl, hfront, hlater, hreq, hcommand⟩ := hframe
      rw [hreq] at hsome
      cases hsome
      refine ⟨done ++ [f], later, by rw [hsplit]; simp, ?_, ?_, fun hw => ?_⟩
      · rw [commands_append, hcommand, hparsed]
        simp [Connection.parsedBy, hreq]
      · rw [hb, hfront, List.drop_left]
        exact hlater
      · rw [hr, dispatch_waits] at hw
        cases hw

end Heard

/--
**How the stream is cut does not matter.** A value that was parsed stays the value when more bytes
come, it takes no more than the buffer, and less than its bytes are incomplete; an error stays the
error. So in every run of a connection that is sent complete frames, each shorter than a request
may be, the commands parsed are those of the frames, in order; all of them once the stream was read
and the reader waits. And while there are bytes to come the reader does not give up.
-/
theorem same_commands_for_every_cut (cfg : ConnectionConfig C) :
    (∀ (buffer more : Bytes) (v : Value) (n : Nat),
      parseValue .standard cfg.parseF64 buffer = .ok (v, n) →
        n ≤ buffer.length ∧ parseValue .standard cfg.parseF64 (buffer ++ more) = .ok (v, n) ∧
        ∀ k < n, parseValue .standard cfg.parseF64 (buffer.take k) = .error .incomplete) ∧
    (∀ (buffer more : Bytes) (e : RespError),
      parseValue .standard cfg.parseF64 buffer = .error e → e ≠ .incomplete →
        parseValue .standard cfg.parseF64 (buffer ++ more) = .error e) ∧
    ∀ frames : List Bytes, (∀ f ∈ frames, cfg.Complete f ∧ f.length < cfg.maxRequestSize) →
      ∀ h : Heard C, Reach (Heard.step cfg) (fun _ _ => True) .new h →
        ∀ rest : Bytes, h.received ++ rest = frames.flatten →
          h.parsed <+: cfg.commands frames ∧
          (h.conn.reader.waits = true → rest = [] → h.parsed = cfg.commands frames) ∧
          (h.conn.reader = .top → rest ≠ [] → h.conn.buffer.length < cfg.maxRequestSize) := by
  refine ⟨?_, ?_, ?_⟩
  · intro buffer more v n hv
    have hne : parseValue .standard cfg.parseF64 buffer ≠ .error .incomplete := by
      rw [hv]
      exact fun h => nomatch h
    exact ⟨parseValue_within hv, (parseValue_append hne more).trans hv,
      fun k hk => parseValue_take hv hk⟩
  · intro buffer more e he hne
    refine (parseValue_append ?_ more).trans he
    rw [he]
    exact fun h => hne (Except.error.inj h)
  · intro frames hframes h hreach rest hrest
    have hcomplete : ∀ f ∈ frames, cfg.Complete f := fun f hf => (hframes f hf).1
    have hinv := hreach.invariant (Heard.inv_new hcomplete) fun _ _ _ hinv _ hstep =>
      Heard.Inv.step hcomplete hinv hstep
    obtain ⟨done, todo, rfl, hparsed, hbuffer, hwaits⟩ := hinv rest hrest
    refine ⟨?_, fun hw hend => ?_, fun htop hmore => ?_⟩
    · rw [hparsed, commands_append]
      exact List.prefix_append _ _
    · -- a frame that is left would be complete
      rw [hend, List.append_nil] at hbuffer
      cases todo with
      | nil => rw [hparsed, List.append_nil]
      | cons f later =>
        have hlt := hwaits hw f rfl
        rw [hbuffer, List.flatten_cons, List.length_append] at hlt
        omega
    · cases todo with
      | nil => exact absurd (List.append_eq_nil_iff.mp hbuffer).2 hmore
      | cons f later =>
        have hlt := hwaits (by rw [htop]; rfl) f rfl
        exact hlt.trans (hframes f (List.mem_append_right _ List.mem_cons_self)).2

namespace Sample

/-- The value of `PING`. -/
def pingValue : Value := .array [.bulkString (Serde.utf8 "PING")]

def ping : Bytes := pingValue.encode Store.Sample.platform .resp3

theorem ping_complete : withPassword.Complete ping := by
  have hread : Reads .standard withPassword.parseF64 0 ping pingValue := by
    refine reads_encode pingValue 0 (by decide) ⟨by decide, ?_, trivial⟩
    show (Serde.utf8 "PING").length ≤ _
    decide +kernel
  have := hread _ true [] le_rfl
  rw [List.append_nil] at this
  exact ⟨_, this⟩

end Sample

/-- `PING` in two reads, cut within its payload. -/
theorem same_commands_for_ping_in_two_reads : ∃ h : Heard Command,
    Reach (Heard.step withPassword) (fun _ _ => True) .new h ∧
    h.received = ping ∧ h.conn.reader.waits = true ∧
    h.parsed = withPassword.commands [ping] := by
  have hrun : (run (Heard.step withPassword) (fun _ _ => true) .new
      [.loop, .read (ping.take 10), .parse false, .loop, .read (ping.drop 10),
        .parse false, .testGate, .send, .parse false]).map
          (fun h => (h.received, h.conn.reader.waits)) = some (ping, true) := by
    decide +kernel
  obtain ⟨h, hreach, hh⟩ := exists_reach_of_run hrun
  obtain ⟨hreceived, hwaits⟩ := Prod.mk.inj hh
  have hreach := hreach.mono (Q := fun _ _ => True) fun _ _ _ => trivial
  refine ⟨h, hreach, hreceived, hwaits, ?_⟩
  refine ((same_commands_for_every_cut withPassword).2.2 [ping] ?_ h
    hreach [] ?_).2.1 hwaits rfl
  · intro f hf
    rw [List.mem_singleton.mp hf]
    exact ⟨ping_complete, by decide +kernel⟩
  · rw [hreceived]
    simp

/-! ## Malformed input -/

namespace ConnectionConfig

/-- An error other than that bytes are missing, or the start of no frame at all. -/
def Malformed (cfg : ConnectionConfig C) (buffer : Bytes) : Prop :=
  (∃ e, parseValue .standard cfg.parseF64 buffer = .error e ∧ e ≠ .incomplete) ∨
    ¬ Completable .standard cfg.parseF64 buffer

variable {buffer : Bytes}

theorem Malformed.not_completable (h : cfg.Malformed buffer) :
    ¬ Completable .standard cfg.parseF64 buffer := by
  rcases h with ⟨e, he, hne⟩ | h
  · exact Resp.not_completable he hne
  · exact h

theorem Malformed.parseCommand (h : cfg.Malformed buffer) : cfg.parseCommand buffer = none := by
  unfold ConnectionConfig.parseCommand
  split
  · rfl
  · next v n hv =>
    refine absurd ⟨[], v, n, ?_⟩ h.not_completable
    rwa [List.append_nil]

theorem Malformed.append (h : cfg.Malformed buffer) (more : Bytes) :
    cfg.Malformed (buffer ++ more) :=
  .inr fun hc => h.not_completable hc.of_append

end ConnectionConfig

namespace Connection

/-- The reader is not busy with a command. -/
def idle (c : Connection C) : Prop := c.reader = .parsing ∨ c.reader.waits = true ∨ c.reader = .done

theorem not_passing_of_idle (h : c.idle) : c.reader.passing = false := by
  rcases h with h | h | h
  · rw [h]
    rfl
  · revert h
    cases c.reader with
    | top | reading => exact fun _ => rfl
    | _ => exact fun h => nomatch h
  · rw [h]
    rfl

/-- **Nothing is parsed behind malformed input**: the reader collects bytes behind it, without a
word to the client, and the input stays malformed. -/
theorem malformed_never_parsed (hparsing : c.reader = .parsing) (hbad : cfg.Malformed c.buffer)
    (hlater : Reach (step cfg) (fun _ _ => True) c c') :
    c'.idle ∧ ∃ more, c'.buffer = c.buffer ++ more := by
  refine hlater.invariant (I := fun c' => c'.idle ∧ ∃ more, c'.buffer = c.buffer ++ more)
    ⟨.inl hparsing, [], (List.append_nil _).symm⟩ ?_
  rintro d a d' ⟨hidle, more, hmore⟩ - hstep
  have hbad : cfg.Malformed d.buffer := hmore ▸ hbad.append more
  cases step_moves hstep with
  | stop _ _ hr hb _ => exact ⟨.inr (.inr hr), more, hb.trans hmore⟩
  | again _ _ _ hr hb | wait _ _ hr hb =>
    exact ⟨.inr (.inl (by rw [hr]; rfl)), more, hb.trans hmore⟩
  | @read bytes _ hr hb =>
    refine ⟨hr.imp_right .inr, more ++ bytes, ?_⟩
    rw [hb, hmore, List.append_assoc]
  | take _ hsome _ _ =>
    rw [hbad.parseCommand] at hsome
    cases hsome
  | pass hpassing =>
    rw [not_passing_of_idle hidle] at hpassing
    cases hpassing
  | other hr hb =>
    refine ⟨?_, more, hb.trans hmore⟩
    unfold idle
    rwa [hr]

/-- The reader is about to end the connection with the bytes it has. -/
structure Ending (cfg : ConnectionConfig C) (bytes : Bytes) (c : Connection C) : Prop where
  buffer : c.buffer = bytes
  malformed : cfg.Malformed bytes
  reader : c.reader = .parsing ∨ c.reader = .top ∨ c.reader = .done
  ends : cfg.maxRequestSize ≤ bytes.length ∨ c.state = .closing

namespace Ending

variable {bytes : Bytes}

theorem step (h : Ending cfg bytes c) (hstep : c.step cfg a = some c') : Ending cfg bytes c' := by
  have hidle : c.idle := h.reader.imp_right (Or.imp_left fun h => by rw [h]; rfl)
  cases step_moves hstep with
  | stop _ _ hr hb hs => exact ⟨hb.trans h.buffer, h.malformed, .inr (.inr hr), hs ▸ h.ends⟩
  | again _ hstate hsize _ _ =>
    rw [h.buffer] at hsize
    rcases h.ends with hend | hend
    · omega
    · exact absurd hend hstate
  | read hreading _ _ =>
    rcases h.reader with hr | hr | hr
    all_goals
      rw [hreading] at hr
      cases hr
  | wait _ _ hr hb hs => exact ⟨hb.trans h.buffer, h.malformed, .inr (.inl hr), hs ▸ h.ends⟩
  | take _ hsome _ _ =>
    rw [h.buffer, h.malformed.parseCommand] at hsome
    cases hsome
  | pass hpassing =>
    rw [not_passing_of_idle hidle] at hpassing
    cases hpassing
  | other hr hb hs => exact ⟨hb.trans h.buffer, h.malformed, hr ▸ h.reader, h.ends.imp_right hs⟩

theorem step_top (h : Ending cfg bytes c) (htop : c.reader = .top) :
    c.step cfg .loop = some { c with reader := .done } := by
  have hend : c.state = .closing ∨ cfg.maxRequestSize ≤ c.buffer.length := by
    rw [h.buffer]
    exact h.ends.symm
  simp only [Connection.step, htop, if_pos hend]

/-- No further byte is read. -/
theorem not_reading (h : Ending cfg bytes c)
    (hlater : Reach (Connection.step cfg) (fun _ _ => True) c c') :
    Ending cfg bytes c' ∧ c'.reader ≠ .reading := by
  have h' : Ending cfg bytes c' := hlater.invariant h fun _ _ _ h _ hstep => h.step hstep
  refine ⟨h', fun hreading => ?_⟩
  rcases h'.reader with hr | hr | hr
  all_goals
    rw [hreading] at hr
    cases hr

/-- The end is one or two steps away. -/
theorem exists_done (h : Ending cfg bytes c) :
    ∃ c', Reach (Connection.step cfg) (fun _ _ => True) c c' ∧ c'.reader = .done := by
  rcases h.reader with hr | hr | hr
  · have hstep : c.step cfg (.parse false) = some { c with reader := .top } := by
      simp only [Connection.step, hr, h.buffer, h.malformed.parseCommand]
    have hend := (h.step hstep).step_top rfl
    exact ⟨_, (Reach.init.step trivial hstep).step trivial hend, rfl⟩
  · exact ⟨_, Reach.init.step trivial (h.step_top hr), rfl⟩
  · exact ⟨c, .init, hr⟩

end Ending

/--
**Malformed input ends the connection if it is as long as a request may be**, or if the connection
is closing: once the reader finds it in its buffer, no further byte is read, whatever the writer and
other connections do, and the reader gets to its end.
-/
theorem malformed_ends (cfg : ConnectionConfig C) {c : Connection C}
    (hparsing : c.reader = .parsing) (hbad : cfg.Malformed c.buffer)
    (hend : cfg.maxRequestSize ≤ c.buffer.length ∨ c.state = .closing) {c' : Connection C}
    (hlater : Reach (step cfg) (fun _ _ => True) c c') :
    c'.buffer = c.buffer ∧ c'.reader ≠ .reading ∧
      ∃ c'', Reach (step cfg) (fun _ _ => True) c' c'' ∧ c''.reader = .done := by
  obtain ⟨h, hreading⟩ := Ending.not_reading ⟨rfl, hbad, .inl hparsing, hend⟩ hlater
  exact ⟨h.buffer, hreading, h.exists_done⟩

/-- Malformed input that is shorter: the reader waits for more of it. -/
theorem reads_on (hparsing : c.reader = .parsing) (hbad : cfg.Malformed c.buffer)
    (hshort : c.buffer.length < cfg.maxRequestSize) (hopen : c.state ≠ .closing) :
    Reach (step cfg) (fun _ _ => True) c { c with reader := .reading } := by
  have hparse : c.step cfg (.parse false) = some { c with reader := .top } := by
    simp only [step, hparsing, hbad.parseCommand]
  have hloop : step cfg { c with reader := .top } .loop = some { c with reader := .reading } :=
    if_neg (not_or.mpr ⟨hopen, Nat.not_le.mpr hshort⟩)
  exact (Reach.init.step trivial hparse).step trivial hloop

/-- **The reader reads on behind malformed input exactly if it is shorter than a request may be**
and the connection is not closing. -/
theorem reads_on_iff (hparsing : c.reader = .parsing) (hbad : cfg.Malformed c.buffer) :
    (∃ c', Reach (step cfg) (fun _ _ => True) c c' ∧ c'.reader = .reading) ↔
      c.buffer.length < cfg.maxRequestSize ∧ c.state ≠ .closing := by
  constructor
  · rintro ⟨c', hlater, hreading⟩
    by_contra hend
    have hend : cfg.maxRequestSize ≤ c.buffer.length ∨ c.state = .closing := by
      rcases not_and_or.mp hend with h | h
      · exact .inl (Nat.not_lt.mp h)
      · exact .inr (Classical.not_not.mp h)
    exact (Ending.not_reading ⟨rfl, hbad, .inl hparsing, hend⟩ hlater).2 hreading
  · rintro ⟨hshort, hopen⟩
    exact ⟨_, reads_on hparsing hbad hshort hopen, rfl⟩

end Connection

namespace Sample

/-- A server without a password that takes eight bytes. -/
def small : ConnectionConfig Command := { Connection.Sample.withPassword with
  authRequired := false, maxRequestSize := 8 }

/-- `:x`, not an integer. -/
def badInteger : Bytes := [0x3A, 0x78, 0x0D, 0x0A]

theorem badInteger_malformed : small.Malformed badInteger := by
  refine .inl ⟨.parseInt, ?_, by decide⟩
  rw [parseValue, show badInteger.length = 3 + 1 from rfl, badInteger, parseValueDepth,
    if_neg (by decide)]
  simp +decide only [reduceIte]
  rfl

/-- `#tX`, which no CR LF follows at once. -/
def badBoolean : Bytes := [0x23, 0x74, 0x58]

theorem badBoolean_malformed : small.Malformed badBoolean := by
  refine .inr ?_
  rintro ⟨more, v, n, h⟩
  rw [parseValue, show badBoolean ++ more = 0x23 :: 0x74 :: 0x58 :: more from rfl, List.length_cons,
    parseValueDepth, if_neg (by decide)] at h
  simp +decide only [reduceIte] at h
  simp [parseBoolean, crlf] at h

end Sample

/-- About to parse a line that is not an integer. -/
def Sample.stuck : Connection Command :=
  { Connection.new with buffer := badInteger, reader := .parsing }

/-- The reader parses, reads a `PING` behind the line and parses again: it is not served. -/
theorem malformed_never_parsed_ping :
    ∃ c', Reach (Connection.step small) (fun _ _ => True) stuck c' ∧
      c'.buffer = badInteger ++ ping ∧ c'.idle := by
  have hrun : (run (Connection.step small) (fun _ _ => true) stuck
      [.parse false, .loop, .read ping, .parse false]).map Connection.buffer
        = some (badInteger ++ ping) := by
    decide +kernel
  obtain ⟨c', hreach, hbuffer⟩ := exists_reach_of_run hrun
  have hreach := hreach.mono (Q := fun _ _ => True) fun _ _ _ => trivial
  exact ⟨c', hreach, hbuffer,
    (Connection.malformed_never_parsed rfl badInteger_malformed hreach).1⟩

/-- Eight bytes of nonsense. -/
theorem malformed_ends_full_buffer :
    ∃ c c' : Connection Command, c.buffer = badInteger ++ badInteger ∧
      Reach (Connection.step small) (fun _ _ => True) c c' ∧ c'.reader = .done := by
  have hbad := badInteger_malformed.append badInteger
  let c : Connection Command :=
    { Connection.new with buffer := badInteger ++ badInteger, reader := .parsing }
  obtain ⟨-, -, c', hlater, hdone⟩ :=
    Connection.malformed_ends small (c := c) rfl hbad (.inl (by decide)) .init
  exact ⟨c, c', rfl, hlater, hdone⟩

/-- The reader holds the malformed bytes, waits for more, and has sent nothing. -/
def Sample.Waits (bytes : Bytes) : Prop :=
  Sample.small.Malformed bytes ∧ ∃ c : Connection Command,
    Reach (Connection.step Sample.small) (fun _ _ => True) .new c ∧ c.buffer = bytes ∧
    c.reader = .reading ∧ c.channel = [] ∧ c.executed = []

theorem Sample.waits_of_short {bytes : Bytes} (hne : bytes ≠ []) (hshort : bytes.length < 8)
    (hbad : small.Malformed bytes) : Waits bytes := by
  let c : Connection Command := { Connection.new with buffer := bytes, reader := .parsing }
  have hread : Connection.step small { Connection.new with reader := .reading } (.read bytes)
      = some c := if_neg (by rwa [List.isEmpty_iff])
  have hstart : Reach (Connection.step small) (fun _ _ => True) .new c :=
    (Reach.init.step trivial (show Connection.step small .new .loop = some _ from rfl)).step trivial
      hread
  exact ⟨hbad, _, hstart.trans (Connection.reads_on (c := c) rfl hbad hshort (nomatch ·)), rfl, rfl,
    rfl, rfl⟩

/-- A line that is not an integer, and a boolean that can not be completed. -/
theorem malformed_waits : Waits badInteger ∧ Waits badBoolean :=
  ⟨waits_of_short (by decide) (by decide) badInteger_malformed,
    waits_of_short (by decide) (by decide) badBoolean_malformed⟩

end Calod.Server
