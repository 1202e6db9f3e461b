import Mathlib.Data.List.DropRight
import Mathlib.Data.List.Infix
import MonkeyLanguage.Prompt.Loop
import MonkeyLanguage.Proofs.Session.Bindings

/-!
# Conversations

What the prompt keeps follows from the texts that have been submitted (`conversation_follows`).  The token mode is
what the well-formed commands to set it make of it, one after the other.  The session is that of the programs since
the last reset that were submitted while the token mode was off, and has the bindings of their logs.

The first section says this of the texts alone.
-/

namespace MonkeyLanguage.Prompt

/-! ## What texts say -/

/-- The text without invisible characters, and without blanks at both ends. -/
def stripped (text : String) : List Char :=
  Text.trim (normalize text).toList

def commandName (text : String) : String :=
  String.ofList (Text.splitFirstWord (stripped text)).1

def commandArgument (text : String) : String :=
  String.ofList (Text.splitFirstWord (stripped text)).2

/-- What the argument of a switch does to it, if it can be understood. -/
def switch? (argument : String) : Option (Bool → Bool) :=
  let word := lowerCase argument
  if isOn word then some fun _ => true
  else if isOff word then some fun _ => false
  else if word.isEmpty then some not
  else none

/-- What a text does to the token mode, if it is a well-formed command to set it. -/
def tokensSwitch? (text : String) : Option (Bool → Bool) :=
  if commandName text = "/tokens" then switch? (commandArgument text) else none

def isReset (text : String) : Bool :=
  commandName text = "/reset"

def isProgram (text : String) : Bool :=
  (stripped text).head?.any (· ≠ '/')

/-- The text is blank, or a command that is unknown or malformed, or one that sets something else. -/
def IsIdle (text : String) : Prop :=
  stripped text = [] ∨
    (stripped text).head? = some '/' ∧ commandName text ≠ "/reset" ∧
      (commandName text = "/tokens" → switch? (commandArgument text) = none)

def tokenModeAfter (texts : List String) : Bool :=
  (texts.filterMap tokensSwitch?).foldl (fun mode switch => switch mode) false

/-- Whether a text that is submitted after some others is run. -/
def isEvaluated (text : String) (before : List String) : Bool :=
  isProgram text && !tokenModeAfter before

/-- The programs since the last reset that were submitted while the token mode was off, as they are run. -/
def programs (texts : List String) : List (FrontEnd × String) :=
  let submissions := (texts.zip texts.inits).rtakeWhile fun submission => !isReset submission.1
  let evaluated := submissions.filter fun submission => isEvaluated submission.1 submission.2
  evaluated.map fun submission => (.descent, normalize submission.1)

theorem tokenModeAfter_concat (texts : List String) (text : String) :
    tokenModeAfter (texts ++ [text]) =
      match tokensSwitch? text with
      | some switch => switch (tokenModeAfter texts)
      | none => tokenModeAfter texts := by
  rw [tokenModeAfter, List.filterMap_append, List.foldl_append]
  cases h : tokensSwitch? text <;> simp [h, tokenModeAfter]

theorem zip_inits_concat {α : Type} (xs : List α) (x : α) :
    (xs ++ [x]).zip (xs ++ [x]).inits = xs.zip xs.inits ++ [(x, xs)] := by
  induction xs with
  | nil => rfl
  | cons y xs ih =>
    rw [List.cons_append, List.inits_cons, List.inits_cons, List.zip_cons_cons, List.zip_cons_cons,
      List.zip_map_right, List.zip_map_right, ih, List.map_append]
    rfl

theorem programs_concat (texts : List String) (text : String) :
    programs (texts ++ [text]) =
      if isReset text then []
      else if isEvaluated text texts then programs texts ++ [(.descent, normalize text)]
      else programs texts := by
  rw [programs, zip_inits_concat]
  by_cases hreset : isReset text = true
  · rw [List.rtakeWhile_concat_neg _ _ _ (by simp [hreset]), if_pos hreset]
    rfl
  · rw [List.rtakeWhile_concat_pos _ _ _ (by simp [hreset]), if_neg hreset]
    rw [List.filter_append, List.map_append, ← programs]
    cases hevaluated : isEvaluated text texts <;> simp [hevaluated]

example : (programs ["0", "/reset", "1", " /tokens on", "2", "/tokens", "3", "/tokens maybe", "4"]).map Prod.snd =
    ["1", "3", "4"] := by
  decide +kernel

/-! ## What a text does -/

variable {s : State} {text : String} {texts : List String}

theorem readSwitch_eq (argument : String) (current : Bool) :
    readSwitch argument current = (switch? argument).map fun switch => switch current := by
  simp only [readSwitch, switch?]
  split
  · rfl
  · split
    · rfl
    · split <;> rfl

theorem dropWhile_trim (cs : List Char) : (Text.trim cs).dropWhile Text.isBlank = Text.trim cs := by
  have hprefix : Text.trim cs <+: cs.dropWhile Text.isBlank := List.rdropWhile_prefix ..
  have hhead := List.head?_dropWhile_not Text.isBlank cs
  cases h : Text.trim cs with
  | nil => rfl
  | cons c trimmed =>
    obtain ⟨rest, hrest⟩ := h ▸ hprefix
    rw [← hrest] at hhead
    have hc : Text.isBlank c = false := by simpa using hhead
    exact List.dropWhile_cons_of_neg (by simp [hc])

theorem commandName_ne (hhead : (stripped text).head? ≠ some '/') {name : String}
    (hname : name.toList.head? = some '/') : commandName text ≠ name := by
  rintro rfl
  rw [commandName, String.toList_ofList, Text.splitFirstWord, stripped, dropWhile_trim, ← stripped] at hname
  obtain ⟨rest, hrest⟩ := List.takeWhile_prefix (l := stripped text) (!Text.isBlank ·)
  refine hhead ?_
  rw [← hrest, List.head?_append, hname]
  rfl

theorem submit_eq (s : State) (text : String) :
    s.submit text =
      if (stripped text).isEmpty then s
      else (s.command? (normalize text)).elim (s.evaluate (normalize text)) s.obey := by
  rw [State.submit, stripped]
  cases s.command? (normalize text) <;> rfl

theorem command?_cases (h : (stripped text).head? = some '/') :
    commandName text = "/clear" ∧ s.command? (normalize text) = some .clear ∨
    commandName text = "/py-traceback" ∧ (∃ switch, s.command? (normalize text) = some (.trace switch)) ∨
    commandName text = "/tokens" ∧ s.command? (normalize text) =
      some (.tokens ((switch? (commandArgument text)).map fun switch => switch s.tokenMode)) ∨
    commandName text = "/reset" ∧ s.command? (normalize text) = some .reset ∨
    commandName text ≠ "/tokens" ∧ commandName text ≠ "/reset" ∧
      s.command? (normalize text) = some (.unknown (commandName text)) := by
  have hslash : (Text.trim (normalize text).toList).head? = some '/' := h
  simp only [State.command?, Command.ofInput?, if_pos hslash]
  split
  · next hname => exact .inl ⟨hname, rfl⟩
  · next hname => exact .inr (.inl ⟨hname, _, rfl⟩)
  · next hname => exact .inr (.inr (.inl ⟨hname, by rw [readSwitch_eq]; rfl⟩))
  · next hname => exact .inr (.inr (.inr (.inl ⟨hname, rfl⟩)))
  · next htokens hreset => exact .inr (.inr (.inr (.inr ⟨htokens, hreset, rfl⟩)))

theorem session_obey (s : State) (command : Command) :
    (s.obey command).session = if command = .reset then .empty s.session.limit else s.session := by
  cases command with
  | trace switch => cases switch <;> rfl
  | tokens switch => cases switch <;> rfl
  | _ => rfl

theorem tokenMode_obey (s : State) (command : Command) :
    (s.obey command).tokenMode =
      match command with
      | .tokens (some on) => on
      | _ => s.tokenMode := by
  cases command with
  | trace switch => cases switch <;> rfl
  | tokens switch => cases switch <;> rfl
  | _ => rfl

theorem session_evaluate (s : State) (input : String) :
    (s.evaluate input).session =
      if s.tokenMode then s.session else (s.session.run .descent .default input).session := by
  unfold State.evaluate
  split
  · rfl
  · dsimp only
    split <;> rfl

theorem tokenMode_evaluate (s : State) (input : String) : (s.evaluate input).tokenMode = s.tokenMode := by
  unfold State.evaluate
  split
  · rfl
  · dsimp only
    split <;> rfl

theorem tokensSwitch?_eq_none (h : (stripped text).head? ≠ some '/') : tokensSwitch? text = none :=
  if_neg (commandName_ne h (by decide))

theorem isReset_eq_false (h : (stripped text).head? ≠ some '/') : isReset text = false :=
  decide_eq_false (commandName_ne h (by decide))

theorem submit_spec (s : State) (text : String) :
    (s.submit text).tokenMode =
        (match tokensSwitch? text with
        | some switch => switch s.tokenMode
        | none => s.tokenMode) ∧
      (s.submit text).session =
        if isReset text then .empty s.session.limit
        else if isProgram text && !s.tokenMode then (s.session.run .descent .default (normalize text)).session
        else s.session := by
  by_cases hslash : (stripped text).head? = some '/'
  · -- a command, which is no program whatever its name is
    have hne : (stripped text).isEmpty = false := by
      cases h : stripped text with
      | nil => simp [h] at hslash
      | cons c cs => rfl
    have hprogram : isProgram text = false := by simp [isProgram, hslash]
    rw [submit_eq, hne, hprogram]
    rcases @command?_cases s text hslash with
      ⟨hname, h⟩ | ⟨hname, switch, h⟩ | ⟨hname, h⟩ | ⟨hname, h⟩ | ⟨htokens, hreset, h⟩
    · simp [h, hname, tokensSwitch?, isReset, tokenMode_obey, session_obey]
    · simp [h, hname, tokensSwitch?, isReset, tokenMode_obey, session_obey]
    · cases hswitch : switch? (commandArgument text) <;>
        simp [h, hname, hswitch, tokensSwitch?, isReset, tokenMode_obey, session_obey]
    · simp [h, hname, tokensSwitch?, isReset, tokenMode_obey, session_obey]
    · simp [h, htokens, hreset, tokensSwitch?, isReset, tokenMode_obey, session_obey]
  · -- no command, so that the first word cannot be the name of one
    rw [tokensSwitch?_eq_none hslash, isReset_eq_false hslash, submit_eq]
    cases hstripped : stripped text with
    | nil => simp [isProgram, hstripped]
    | cons c cs =>
      have hcommand : s.command? (normalize text) = none := by
        rw [State.command?, Command.ofInput?, if_neg]
        exact hslash
      have hprogram : isProgram text = true := by simpa [isProgram, hstripped] using hslash
      rw [hcommand, hprogram]
      refine ⟨tokenMode_evaluate s _, (session_evaluate s _).trans ?_⟩
      cases s.tokenMode <;> rfl

/-! ## Conversations -/

/-- The text that an event submits. -/
def Event.text? : Event → Option String
  | .line text => some text
  | .keys pressed => Editor.submitted? pressed
  | .interrupt | .finish => none

/-- The events before the end of the input. -/
def handled (events : List Event) : List Event :=
  events.takeWhile (· ≠ .finish)

def State.handle (s : State) : Event → State
  | .line text => s.flush.submit text
  | .keys pressed => (Editor.submitted? pressed).elim s.flush s.flush.submit
  | .interrupt => s.flush.write "KeyboardInterrupt\n"
  | .finish => s.flush.write "\n"

/-- What the prompt keeps is what the texts submitted so far make of it. -/
structure Follows (limit : Nat) (s : State) (texts : List String) : Prop where
  tokenMode_eq : s.tokenMode = tokenModeAfter texts
  session_eq : s.session = (Session.empty limit).after .default (programs texts)

variable {event : Event} {limit : Nat}

theorem converse_cons (h : event ≠ .finish) (s : State) (events : List Event) :
    ∃ edits, s.converse (event :: events) =
      (⟨s, edits⟩ :: ((s.handle event).converse events).1, ((s.handle event).converse events).2) := by
  cases event with
  | finish => exact absurd rfl h
  | line text =>
    rw [State.converse, State.converse.continueWith]
    exact ⟨none, rfl⟩
  | keys pressed =>
    rw [State.converse, State.converse.continueWith]
    exact ⟨some (Editor.empty.type pressed), rfl⟩
  | interrupt =>
    rw [State.converse, State.converse.continueWith]
    exact ⟨none, rfl⟩

/-- The prompts of a conversation show the states after the events before them. -/
theorem converse_states (s : State) (events : List Event) :
    (s.converse events).1.map Shown.state = (handled events).inits.map (·.foldl State.handle s) ∧
      (s.converse events).2 = ((handled events).foldl State.handle s).handle .finish := by
  induction events generalizing s with
  | nil =>
    rw [State.converse]
    exact ⟨rfl, rfl⟩
  | cons event events ih =>
    by_cases hfinish : event = .finish
    · obtain rfl := hfinish
      rw [State.converse]
      exact ⟨rfl, rfl⟩
    · have hhandled : handled (event :: events) = event :: handled events :=
        List.takeWhile_cons_of_pos (by simpa using hfinish)
      obtain ⟨hstates, hlast⟩ := ih (s.handle event)
      obtain ⟨edits, hconverse⟩ := converse_cons hfinish s events
      rw [hhandled, hconverse, List.inits_cons, List.map_cons, List.map_cons, List.map_map, hstates, hlast]
      exact ⟨rfl, rfl⟩

theorem follows_greet (limit : Nat) (settings : Settings) (user : Option String) :
    Follows limit (.greet limit settings user) [] :=
  ⟨rfl, rfl⟩

theorem Follows.submit (h : Follows limit s texts) (text : String) :
    Follows limit (s.flush.submit text) (texts ++ [text]) := by
  obtain ⟨htokenMode, hsession⟩ := submit_spec s.flush text
  have hmode : s.flush.tokenMode = tokenModeAfter texts := h.tokenMode_eq
  have hbefore : s.flush.session = (Session.empty limit).after .default (programs texts) := h.session_eq
  rw [hmode] at htokenMode hsession
  constructor
  · rw [tokenModeAfter_concat]
    exact htokenMode
  · rw [programs_concat, hsession, hbefore, ← isEvaluated, Session.limit_after]
    split
    · rfl
    · split
      · rw [Session.after_append]
        rfl
      · rfl

theorem handle_of_text (h : event.text? = some text) (s : State) : s.handle event = s.flush.submit text := by
  cases event with
  | line text => cases h; rfl
  | keys pressed => rw [State.handle, show Editor.submitted? pressed = some text from h, Option.elim_some]
  | _ => cases h

theorem handle_of_no_text (h : event.text? = none) (s : State) :
    (s.handle event).tokenMode = s.tokenMode ∧ (s.handle event).session = s.session := by
  cases event with
  | line text => cases h
  | keys pressed =>
    rw [State.handle, show Editor.submitted? pressed = none from h, Option.elim_none]
    exact ⟨rfl, rfl⟩
  | _ => exact ⟨rfl, rfl⟩

theorem Follows.handle (h : Follows limit s texts) (event : Event) :
    Follows limit (s.handle event) (texts ++ event.text?.toList) := by
  cases htext : event.text? with
  | some text =>
    rw [handle_of_text htext]
    exact h.submit text
  | none =>
    obtain ⟨htokenMode, hsession⟩ := handle_of_no_text htext s
    rw [Option.toList_none, List.append_nil]
    exact ⟨htokenMode.trans h.tokenMode_eq, hsession.trans h.session_eq⟩

theorem Follows.foldl (h : Follows limit s texts) (events : List Event) :
    Follows limit (events.foldl State.handle s) (texts ++ events.filterMap Event.text?) := by
  induction events generalizing s texts with
  | nil => rwa [List.filterMap_nil, List.append_nil]
  | cons event events ih =>
    have hrest := ih (h.handle event)
    have hfilter : (event :: events).filterMap Event.text? = event.text?.toList ++ events.filterMap Event.text? := by
      cases htext : event.text? <;> simp [htext]
    rwa [List.append_assoc, ← hfilter] at hrest

theorem submit_of_idle (h : IsIdle text) (s : State) :
    (s.submit text).tokenMode = s.tokenMode ∧ (s.submit text).session = s.session := by
  obtain ⟨htokenMode, hsession⟩ := submit_spec s text
  rcases h with hblank | ⟨hslash, hreset, hmalformed⟩
  · have hhead : (stripped text).head? ≠ some '/' := by simp [hblank]
    rw [tokensSwitch?_eq_none hhead] at htokenMode
    rw [isReset_eq_false hhead, isProgram, hblank] at hsession
    exact ⟨htokenMode, hsession⟩
  · have hswitch : tokensSwitch? text = none := by
      unfold tokensSwitch?
      split
      · next hname => exact hmalformed hname
      · rfl
    rw [hswitch] at htokenMode
    rw [isReset, decide_eq_false hreset, isProgram, hslash] at hsession
    exact ⟨htokenMode, hsession⟩

theorem submit_of_reset (h : isReset text = true) (s : State) :
    (s.submit text).tokenMode = s.tokenMode ∧ (s.submit text).session = .empty s.session.limit := by
  obtain ⟨htokenMode, hsession⟩ := submit_spec s text
  have hname : commandName text = "/reset" := of_decide_eq_true h
  have hswitch : tokensSwitch? text = none := if_neg (by rw [hname]; decide)
  rw [hswitch] at htokenMode
  rw [h] at hsession
  exact ⟨htokenMode, hsession⟩

theorem handle_of_idle (h : ∀ text ∈ event.text?, IsIdle text) (s : State) :
    (s.handle event).tokenMode = s.tokenMode ∧ (s.handle event).session = s.session := by
  cases htext : event.text? with
  | some text =>
    rw [handle_of_text htext]
    exact submit_of_idle (h text htext) s.flush
  | none => exact handle_of_no_text htext s

theorem bindings_of_follows (h : Follows limit s texts) :
    s.session.bindings =
      boundBy (Session.empty limit).scope [] ((Session.empty limit).logs .default (programs texts)) := by
  rw [h.session_eq]
  exact Session.bindings_after Nat.zero_lt_one _

/-- The states at the prompts are those after the events so far, and follow from the texts submitted so far.  An
interrupt and an idle text change neither the token mode nor the session, and a reset changes the session alone.  A
text that is no program changes nothing, and a program leaves the bindings that it has made when it ends or is
aborted. -/
theorem conversation_follows (limit : Nat) (settings : Settings) (user : Option String) (events : List Event) :
    let start := State.greet limit settings user
    (start.converse events).1.map Shown.state = (handled events).inits.map (·.foldl State.handle start) ∧
    (start.converse events).2 = ((handled events).foldl State.handle start).handle .finish ∧
    (∀ before : List Event,
      let s := before.foldl State.handle start
      let texts := before.filterMap Event.text?
      Follows limit s texts ∧
        s.session.bindings =
          boundBy (Session.empty limit).scope [] ((Session.empty limit).logs .default (programs texts))) ∧
    (∀ (s : State) (event : Event),
      ((∀ text ∈ event.text?, IsIdle text) →
        (s.handle event).tokenMode = s.tokenMode ∧ (s.handle event).session = s.session) ∧
      ∀ text ∈ event.text?, isReset text = true →
        (s.handle event).tokenMode = s.tokenMode ∧ (s.handle event).session = .empty s.session.limit) ∧
    ∀ (session : Session) (source : String),
      ((FrontEnd.descent.parse source).2 ≠ [] → (session.run .descent .default source).session = session) ∧
      (session.scope < session.world.scopes.size →
        (session.run .descent .default source).session.bindings =
          boundBy session.scope session.bindings (session.log .default .descent source)) := by
  intro start
  obtain ⟨hstates, hlast⟩ := converse_states start events
  refine ⟨hstates, hlast, fun before => ?_, fun s event => ⟨fun hidle => ?_, fun text htext hreset => ?_⟩,
    fun session source => ⟨fun hmessages => ?_, fun hscope => ?_⟩⟩
  · have hfollows := (follows_greet limit settings user).foldl before
    exact ⟨hfollows, bindings_of_follows hfollows⟩
  · exact handle_of_idle hidle s
  · rw [handle_of_text htext]
    exact submit_of_reset hreset s.flush
  · rw [Session.run_of_messages hmessages]
  · have hafter := @Session.bindings_after .default session hscope [(.descent, source)]
    rwa [Session.logs, Session.logs, List.append_nil] at hafter

end MonkeyLanguage.Prompt
