import Mathlib.Data.List.Induction
import MonkeyLanguage.Host.CommandLine
import MonkeyLanguage.Proofs.Parser.Overlong
import MonkeyLanguage.Proofs.Session.Safety

/-!
# What a command line comes to

The first argument that settles the matter decides alone (`decideFrom_of_settles`): one that asks for help, a flag that
there is none of, or a second input.  Without such an argument only the last flag that sets the mode counts, whether
there is a flag for the other front end, and the input (`decideFrom_of_unsettled`), so the order of the arguments
hardly matters.  The exit code tells whether there are errors, and these stand in the standard error stream alone
(`Ends.tells`).

This holds of what is worked on without a crash: the limit on nested calls can be put in force, and the text has no
numeral at which the front end breaks off.  Otherwise the process ends in a crash and reports none of the errors, even
if the numeral is the whole text (`run_of_digits`).

To say that nothing is read, what the command line does to its surroundings is an effect of a monad (`Host`).
-/

namespace MonkeyLanguage.CommandLine

/-! ## Arguments -/

def IsHelp (argument : String) : Prop :=
  argument = "-h" ∨ argument = "--help"

def IsOption (argument : String) : Prop :=
  ['-', '-'] <+: argument.toList

def SetsMode (argument : String) : Prop :=
  argument = "--tokens" ∨ argument = "--ast"

def IsFlag (argument : String) : Prop :=
  SetsMode argument ∨ argument = "--lark"

/-- The argument is an input: a dash, the name of a file, or a text. -/
def IsInput (argument : String) : Prop :=
  ¬IsHelp argument ∧ ¬IsOption argument

instance (argument : String) : Decidable (IsHelp argument) :=
  inferInstanceAs (Decidable (_ ∨ _))

instance (argument : String) : Decidable (IsOption argument) :=
  inferInstanceAs (Decidable (_ <+: _))

instance (argument : String) : Decidable (SetsMode argument) :=
  inferInstanceAs (Decidable (_ ∨ _))

instance (argument : String) : Decidable (IsFlag argument) :=
  inferInstanceAs (Decidable (_ ∨ _))

instance (argument : String) : Decidable (IsInput argument) :=
  inferInstanceAs (Decidable (_ ∧ _))

/-- Behind some arguments, the argument settles the matter. -/
def Settles (before : List String) (argument : String) : Prop :=
  IsHelp argument ∨ IsOption argument ∧ ¬IsFlag argument ∨ IsInput argument ∧ ∃ other ∈ before, IsInput other

instance (before : List String) (argument : String) : Decidable (Settles before argument) :=
  inferInstanceAs (Decidable (_ ∨ _))

def Unsettled (arguments : List String) : Prop :=
  ∀ before argument after, arguments = before ++ argument :: after → ¬Settles before argument

/-- What comes of an argument that settles the matter. -/
def decision (argument : String) : Decision :=
  if IsHelp argument then .help
  else if IsOption argument then .unknownFlag argument
  else .unexpectedArgument argument

def mode? (argument : String) : Option Mode :=
  if argument = "--tokens" then some .showTokens
  else if argument = "--ast" then some .showTree
  else none

/-- What arguments ask for, none of which settles the matter. -/
def requestOf (arguments : List String) : Request :=
  ⟨(arguments.filterMap mode?).getLast?.getD .evaluate,
    if "--lark" ∈ arguments then .automaton else .descent,
    arguments.find? (IsInput ·)⟩

variable {before after arguments arguments' : List String} {argument flag : String}

theorem isFlag_or_isInput_iff :
    IsFlag argument ∨ IsInput argument ↔ ¬IsHelp argument ∧ (IsOption argument → IsFlag argument) := by
  have hflag (h : IsFlag argument) : ¬IsHelp argument := by
    rcases h with (rfl | rfl) | rfl <;> decide
  constructor
  · rintro (h | ⟨hhelp, hoption⟩)
    · exact ⟨hflag h, fun _ => h⟩
    · exact ⟨hhelp, fun h => absurd h hoption⟩
  · rintro ⟨hhelp, hoption⟩
    by_cases h : IsOption argument
    · exact .inl (hoption h)
    · exact .inr ⟨hhelp, h⟩

theorem not_isInput_of_isFlag (h : IsFlag argument) : ¬IsInput argument := by
  rcases h with (rfl | rfl) | rfl <;> decide

theorem not_settles_iff :
    ¬Settles before argument ↔
      (IsFlag argument ∨ IsInput argument) ∧ (IsInput argument → ∀ other ∈ before, ¬IsInput other) := by
  rw [isFlag_or_isInput_iff, Settles]
  by_cases hhelp : IsHelp argument <;> by_cases hoption : IsOption argument <;> by_cases hflag : IsFlag argument <;>
    simp [hhelp, hoption, hflag, IsInput]

theorem not_settles_of_isFlag (h : IsFlag argument) : ¬Settles before argument :=
  not_settles_iff.2 ⟨.inl h, fun hinput => absurd hinput (not_isInput_of_isFlag h)⟩

theorem unsettled_nil : Unsettled [] := by
  intro before argument after h
  simp at h

theorem unsettled_concat : Unsettled (before ++ [argument]) ↔ Unsettled before ∧ ¬Settles before argument := by
  constructor
  · refine fun h => ⟨fun front other back hbefore => ?_, h before argument [] rfl⟩
    exact h front other (back ++ [argument]) (by rw [hbefore, List.append_assoc, List.cons_append])
  · rintro ⟨hbefore, hargument⟩ front other back hsplit
    rcases List.eq_nil_or_concat back with rfl | ⟨back, last, rfl⟩
    · obtain ⟨rfl, hlast⟩ := List.append_inj' hsplit rfl
      obtain rfl : argument = other := List.cons.inj hlast |>.1
      exact hargument
    · rw [List.concat_eq_append, ← List.cons_append, ← List.append_assoc] at hsplit
      exact hbefore front other back (List.append_inj' hsplit rfl).1

theorem unsettled_iff :
    Unsettled arguments ↔
      (∀ argument ∈ arguments, IsFlag argument ∨ IsInput argument) ∧ (arguments.filter (IsInput ·)).length ≤ 1 := by
  induction arguments using List.reverseRecOn with
  | nil => exact iff_of_true unsettled_nil ⟨nofun, Nat.zero_le 1⟩
  | append_singleton before argument ih =>
    rw [unsettled_concat, ih, not_settles_iff, List.forall_mem_append, List.forall_mem_singleton, List.filter_append,
      List.length_append]
    have hnone : (before.filter (IsInput ·)).length = 0 ↔ ∀ other ∈ before, ¬IsInput other := by
      simp [List.filter_eq_nil_iff]
    by_cases hinput : IsInput argument
    · -- there must have been no input before
      have hone : ([argument].filter (IsInput ·)).length = 1 := by simp [hinput]
      rw [hone, ← hnone]
      simp only [hinput, true_imp_iff]
      constructor
      · rintro ⟨⟨hbefore, -⟩, hargument, hzero⟩
        exact ⟨⟨hbefore, hargument⟩, by omega⟩
      · rintro ⟨⟨hbefore, hargument⟩, hlength⟩
        exact ⟨⟨hbefore, by omega⟩, hargument, by omega⟩
    · have hzero : ([argument].filter (IsInput ·)).length = 0 := by simp [hinput]
      rw [hzero, Nat.add_zero]
      simp only [hinput, false_imp_iff, and_true]
      exact and_right_comm

theorem exists_settles (h : ¬Unsettled arguments) :
    ∃ before argument after, arguments = before ++ argument :: after ∧ Unsettled before ∧ Settles before argument := by
  induction arguments using List.reverseRecOn with
  | nil => exact absurd unsettled_nil h
  | append_singleton before argument ih =>
    by_cases hbefore : Unsettled before
    · have hsettles : Settles before argument := by
        by_contra hargument
        exact h (unsettled_concat.2 ⟨hbefore, hargument⟩)
      exact ⟨before, argument, [], rfl, hbefore, hsettles⟩
    · obtain ⟨front, other, back, rfl, hfront, hother⟩ := ih hbefore
      exact ⟨front, other, back ++ [argument], by rw [List.append_assoc, List.cons_append], hfront, hother⟩

/-! ## The decision -/

theorem input_requestOf (before : List String) :
    (requestOf before).input ≠ none ↔ ∃ other ∈ before, IsInput other := by
  rw [requestOf, Ne, List.find?_eq_none]
  simp

theorem requestOf_concat (before : List String) (argument : String) :
    requestOf (before ++ [argument]) =
      ⟨(mode? argument).getD (requestOf before).mode,
        if argument = "--lark" then .automaton else (requestOf before).frontEnd,
        (requestOf before).input.or (if IsInput argument then some argument else none)⟩ := by
  refine congr (congr (congrArg Request.mk ?_) ?_) ?_
  · cases hmode : mode? argument <;> simp [requestOf, hmode]
  · by_cases hlark : argument = "--lark" <;> simp [requestOf, hlark, eq_comm]
  · by_cases hinput : IsInput argument <;> simp [requestOf, hinput, List.find?_append]

theorem decideFrom_of_not_isFlag (request : Request) (h : ¬IsFlag argument) (rest : List String) :
    decideFrom request (argument :: rest) =
      if IsHelp argument ∨ IsOption argument ∨ request.input ≠ none then decision argument
      else decideFrom { request with input := some argument } rest := by
  rw [IsFlag, SetsMode, not_or, not_or] at h
  rw [decideFrom, if_neg h.1.1, if_neg h.1.2, if_neg h.2, decision]
  by_cases hhelp : IsHelp argument
  · rw [if_pos (show argument = "-h" ∨ argument = "--help" from hhelp), if_pos hhelp, if_pos (.inl hhelp)]
  rw [if_neg (show ¬(argument = "-h" ∨ argument = "--help") from hhelp), if_neg hhelp]
  by_cases hoption : IsOption argument
  · rw [if_pos (List.isPrefixOf_iff_prefix.2 hoption), if_pos hoption, if_pos (.inr (.inl hoption))]
  rw [if_neg (mt List.isPrefixOf_iff_prefix.1 hoption)]
  cases request.input <;> simp [hhelp, hoption]

theorem decideFrom_requestOf (before : List String) (argument : String) (rest : List String) :
    decideFrom (requestOf before) (argument :: rest) =
      if Settles before argument then decision argument else decideFrom (requestOf (before ++ [argument])) rest := by
  rw [requestOf_concat]
  by_cases hflag : IsFlag argument
  · -- a flag changes the request in one field, and is never the input
    rw [if_neg (not_settles_of_isFlag hflag), decideFrom]
    have hnone := not_isInput_of_isFlag hflag
    rcases hflag with (rfl | rfl) | rfl <;> simp [mode?, hnone]
  · have hsettles : Settles before argument ↔
        IsHelp argument ∨ IsOption argument ∨ (requestOf before).input ≠ none := by
      rw [input_requestOf, Settles, IsInput]
      by_cases hhelp : IsHelp argument <;> by_cases hoption : IsOption argument <;> simp [hhelp, hoption, hflag]
    rw [decideFrom_of_not_isFlag _ hflag]
    by_cases h : Settles before argument
    · rw [if_pos h, if_pos (hsettles.1 h)]
    · rw [if_neg h, if_neg (mt hsettles.2 h)]
      have hinput := not_or.1 (mt hsettles.2 h)
      rw [not_or, not_not] at hinput
      rw [IsFlag, SetsMode, not_or, not_or] at hflag
      simp [mode?, hflag, IsInput, hinput]

theorem decideFrom_append (h : Unsettled before) (rest : List String) :
    decideFrom .initial (before ++ rest) = decideFrom (requestOf before) rest := by
  induction before using List.reverseRecOn generalizing rest with
  | nil => rfl
  | append_singleton before argument ih =>
    obtain ⟨hbefore, hargument⟩ := unsettled_concat.1 h
    rw [List.append_assoc, ih hbefore]
    exact (decideFrom_requestOf ..).trans (if_neg hargument)

theorem decideFrom_of_settles (h : Unsettled before) (hargument : Settles before argument) (after : List String) :
    decideFrom .initial (before ++ argument :: after) = decision argument := by
  rw [decideFrom_append h, decideFrom_requestOf, if_pos hargument]

theorem decideFrom_of_unsettled (h : Unsettled arguments) :
    decideFrom .initial arguments = .request (requestOf arguments) := by
  rw [← List.append_nil arguments, decideFrom_append h, List.append_nil]
  rfl

/-! ## The order of the arguments -/

theorem setsMode_of_mode? {mode : Mode} (h : mode? argument = some mode) : SetsMode argument := by
  unfold mode? at h
  split at h
  · next heq => exact .inl heq
  · split at h
    · next heq => exact .inr heq
    · cases h

theorem filterMap_mode?_filter (arguments : List String) :
    (arguments.filter (SetsMode ·)).filterMap mode? = arguments.filterMap mode? := by
  rw [List.filterMap_filter]
  refine List.filterMap_congr fun argument _ => ?_
  split
  · rfl
  · next h =>
    cases hmode : mode? argument with
    | none => rfl
    | some mode => exact absurd (setsMode_of_mode? hmode) (by simpa using h)

theorem requestOf_congr (hmode : (arguments'.filterMap mode?).getLast? = (arguments.filterMap mode?).getLast?)
    (hfrontEnd : "--lark" ∈ arguments' ↔ "--lark" ∈ arguments)
    (hinput : arguments'.filter (IsInput ·) = arguments.filter (IsInput ·)) :
    requestOf arguments' = requestOf arguments := by
  simp only [requestOf, hmode, hfrontEnd, ← List.head?_filter, hinput]

theorem requestOf_of_perm (h : Unsettled arguments) (hperm : arguments'.Perm arguments)
    (hmodes : arguments'.filter (SetsMode ·) = arguments.filter (SetsMode ·)) :
    Unsettled arguments' ∧ requestOf arguments' = requestOf arguments := by
  obtain ⟨hall, hlength⟩ := unsettled_iff.1 h
  have hperm' := hperm.filter (IsInput ·)
  -- there is one input at most, so that the inputs are the same
  have hinput : arguments'.filter (IsInput ·) = arguments.filter (IsInput ·) := by
    generalize arguments.filter (IsInput ·) = inputs at hlength hperm'
    match inputs, hlength with
    | [], _ => exact List.perm_nil.1 hperm'
    | [_], _ => exact List.perm_singleton.1 hperm'
  refine ⟨unsettled_iff.2 ⟨fun argument hmem => hall argument (hperm.mem_iff.1 hmem), hinput ▸ hlength⟩, ?_⟩
  refine requestOf_congr ?_ hperm.mem_iff hinput
  rw [← filterMap_mode?_filter, hmodes, filterMap_mode?_filter]

theorem requestOf_of_repeated (h : Unsettled (before ++ flag :: after)) (hflag : IsFlag flag) :
    Unsettled (before ++ flag :: flag :: after) ∧
      requestOf (before ++ flag :: flag :: after) = requestOf (before ++ flag :: after) := by
  obtain ⟨hall, hlength⟩ := unsettled_iff.1 h
  have hinput : (before ++ flag :: flag :: after).filter (IsInput ·) =
      (before ++ flag :: after).filter (IsInput ·) := by
    simp [List.filter_append, not_isInput_of_isFlag hflag]
  refine ⟨unsettled_iff.2 ⟨fun argument hmem => hall argument (by simpa using hmem), hinput ▸ hlength⟩, ?_⟩
  refine requestOf_congr ?_ (by simp) hinput
  cases hmode : mode? flag <;> simp [List.filterMap_append, hmode, List.getLast?_append, List.getLast?_cons]

/-! ## Effects -/

/-- What the command line does to its surroundings. -/
structure Host (m : Type → Type) where
  /-- Reads the standard input. -/
  stdin : m String
  /-- Looks for a file. -/
  file : String → m File
  /-- Does what is asked for with a text. -/
  work : Request → String → m Result

def Host.source {m : Type → Type} [Monad m] (host : Host m) (input : Option String) : m (Except Result String) :=
  match input with
  | none | some "-" => do return CommandLine.source none (← host.stdin) fun _ => .missing
  | some argument => do
    let file ← host.file argument
    return CommandLine.source (some argument) "" fun _ => file

def Host.run {m : Type → Type} [Monad m] (host : Host m) (arguments : List String) : m Result := do
  match decideFrom .initial arguments with
  | .help => return ⟨.exit 0, usage ++ "\n", "", none⟩
  | .unknownFlag flag => return usageError ("Unknown flag: " ++ flag)
  | .unexpectedArgument argument => return usageError ("Unexpected argument: " ++ argument)
  | .request request =>
    match ← host.source request.input with
    | .error result => return result
    | .ok source => host.work request source

/-- The host with the given texts to read. -/
def Host.given (machine : Machine) (settings : Settings) (stdin : String) (files : String → File) : Host Id :=
  ⟨stdin, files, fulfil machine settings⟩

variable {machine : Machine} {settings : Settings} {stdin : String} {files : String → File}

theorem source_given (input : Option String) :
    (Host.given machine settings stdin files).source input = source input stdin files := by
  unfold Host.source
  split
  · rfl
  · rfl
  · next argument hdash =>
    rw [source.eq_3 _ _ _ hdash]
    exact source.eq_3 _ _ _ hdash

theorem run_given (arguments : List String) :
    (Host.given machine settings stdin files).run arguments = run machine settings arguments stdin files := by
  unfold Host.run run
  cases decideFrom .initial arguments with
  | request request =>
    dsimp only
    rw [source_given]
    cases source request.input stdin files <;> rfl
  | _ => rfl

/-- The result for an argument that settles the matter. -/
def verdict (argument : String) : Result :=
  if IsHelp argument then ⟨.exit 0, usage ++ "\n", "", none⟩
  else usageError ((if IsOption argument then "Unknown flag: " else "Unexpected argument: ") ++ argument)

theorem run_of_settles {m : Type → Type} [Monad m] (host : Host m) (h : Unsettled before)
    (hargument : Settles before argument) (after : List String) :
    host.run (before ++ argument :: after) = pure (verdict argument) := by
  rw [Host.run, decideFrom_of_settles h hargument, decision, verdict]
  by_cases hhelp : IsHelp argument
  · rw [if_pos hhelp, if_pos hhelp]
  · rw [if_neg hhelp, if_neg hhelp]
    by_cases hoption : IsOption argument
    · rw [if_pos hoption, if_pos hoption]
    · rw [if_neg hoption, if_neg hoption]

theorem run_of_unsettled {text : String} (h : Unsettled arguments)
    (hsource : source (requestOf arguments).input stdin files = .ok text) :
    run machine settings arguments stdin files = fulfil machine settings (requestOf arguments) text := by
  rw [run, decideFrom_of_unsettled h]
  simp only [hsource]

/-! ## Work on a text -/

def errorLines (messages : List String) : String :=
  String.join (messages.map fun message => "Error: " ++ message ++ "\n")

theorem errorLines_singleton (message : String) : errorLines [message] = errorLine message :=
  String.empty_append ..

def program (machine : Machine) (limit : Option Nat) (request : Request) (text : String) : Run :=
  (Session.empty (machine.evaluations limit)).run request.frontEnd .default text

/-- No calls nest too deep for the limit, in whatever comes to be done with the text. -/
structure Suffices (machine : Machine) (limit : Option Nat) (request : Request) (text : String) : Prop where
  parses : machine.parses limit request.frontEnd text = true
  showsTree : request.frontEnd.overlong? text = none → request.mode = .showTree →
    (request.frontEnd.parse text).2 = [] → machine.showsTree limit (request.frontEnd.parse text).1 = true
  evaluates : request.frontEnd.overlong? text = none → request.mode = .evaluate →
    (program machine limit request text).outcome ≠ .aborted .tooDeep
  showsValue : request.frontEnd.overlong? text = none → request.mode = .evaluate →
    ∀ v, (program machine limit request text).outcome = .finished v → (∀ e, v ≠ .error e) → v ≠ .null →
      machine.showsValue limit v = true

variable {limit : Option Nat} {request : Request} {text : String}

/-- A program has a value, unless it is too deep. -/
theorem exists_outcome_of_program (hparse : (request.frontEnd.parse text).2 = [])
    (hdepth : (program machine limit request text).outcome ≠ .aborted .tooDeep) :
    ∃ v, (program machine limit request text).outcome = .finished v := by
  rw [program, Session.run_of_parse (Prod.ext rfl hparse), Session.evaluate] at hdepth ⊢
  have hreached : (Session.empty (machine.evaluations limit)).world.Reached := .newEnvironment .empty
  generalize Session.empty (machine.evaluations limit) = s at hreached hdepth ⊢
  have hsafe := Evaluator.safe_eval .default (s.limit + 1) (evaluable_program request.frontEnd text) s.scope
    { s.world with output := "" } hreached.holds
  generalize eval _ _ _ _ _ = result at hsafe hdepth
  cases result with
  | ok v w => exact ⟨v, rfl⟩
  | error reason w =>
    obtain ⟨-, rfl⟩ := hsafe
    exact absurd rfl hdepth

/-- How the work on a text ends: `overflowed` if calls nest too deep, and otherwise in a crash at a numeral, with
messages of the parser, with a failure of the program, or well. -/
inductive Ends (machine : Machine) (limit : Option Nat) (request : Request) (text : String) : Result → Prop where
  | overflowed {result : Result} (h : ¬Suffices machine limit request text)
      (hending : result.ending = .exit 70 ∨ result.ending = .crash .valueTooDeep) :
      Ends machine limit request text result
  | brokenOff {numeral : Token} (h : Suffices machine limit request text)
      (hnumeral : request.frontEnd.overlong? text = some numeral) :
      Ends machine limit request text ⟨.crash (.overlong request.frontEnd numeral), "", "", none⟩
  | malformed (h : Suffices machine limit request text) (hnumeral : request.frontEnd.overlong? text = none)
      (hmessages : (request.frontEnd.parse text).2 ≠ []) :
      Ends machine limit request text ⟨.exit 1, "", errorLines (request.frontEnd.parse text).2, none⟩
  | failed {e : RuntimeError} (h : Suffices machine limit request text)
      (hnumeral : request.frontEnd.overlong? text = none) (hmessages : (request.frontEnd.parse text).2 = [])
      (hmode : request.mode = .evaluate) (he : (program machine limit request text).outcome = .finished (.error e)) :
      Ends machine limit request text
        ⟨.exit 1, (program machine limit request text).printed, errorLines [e.message], none⟩
  | well {result : Result} (h : Suffices machine limit request text)
      (hnumeral : request.frontEnd.overlong? text = none) (hmessages : (request.frontEnd.parse text).2 = [])
      (hvalue : request.mode = .evaluate → ∀ e, (program machine limit request text).outcome ≠ .finished (.error e))
      (hending : result.ending = .exit 0) : Ends machine limit request text result

theorem showTree_of_messages (h : (request.frontEnd.parse text).2 ≠ []) :
    showTree machine settings limit request.frontEnd text =
      ⟨.exit 1, "", errorLines (request.frontEnd.parse text).2, none⟩ := by
  unfold showTree
  split
  · next hparse => exact absurd (congrArg Prod.snd hparse) h
  · next hparse =>
    rw [hparse]
    rfl

theorem evaluate_of_messages (h : (request.frontEnd.parse text).2 ≠ []) :
    evaluate machine settings limit request.frontEnd text =
      ⟨.exit 1, "", errorLines (request.frontEnd.parse text).2, none⟩ := by
  rw [evaluate, Session.run_of_messages h]
  rfl

theorem suffices_of_messages (hparses : machine.parses limit request.frontEnd text = true)
    (h : (request.frontEnd.parse text).2 ≠ []) : Suffices machine limit request text := by
  have houtcome : (program machine limit request text).outcome = .rejected (request.frontEnd.parse text).2 :=
    congrArg Run.outcome (Session.run_of_messages h)
  refine ⟨hparses, fun _ _ hmessages => absurd hmessages h, fun _ _ => ?_, fun _ _ v hv => ?_⟩
  · rw [houtcome]
    exact Outcome.noConfusion
  · rw [houtcome] at hv
    cases hv

theorem ends_showTree (hparses : machine.parses limit request.frontEnd text = true)
    (hnumeral : request.frontEnd.overlong? text = none) (hmessages : (request.frontEnd.parse text).2 = [])
    (hmode : request.mode = .showTree) :
    Ends machine limit request text (showTree machine settings limit request.frontEnd text) := by
  have hparse : request.frontEnd.parse text = ((request.frontEnd.parse text).1, []) := Prod.ext rfl hmessages
  have hother : request.mode ≠ .evaluate := by rw [hmode]; decide
  rw [showTree, hparse]
  dsimp only
  split
  · next hshows =>
    exact .well ⟨hparses, fun _ _ _ => hshows, fun _ h => absurd h hother, fun _ h => absurd h hother⟩ hnumeral
      hmessages (fun h => absurd h hother) rfl
  · next hshows => exact .overflowed (fun h => hshows (h.showsTree hnumeral hmode hmessages)) (.inl rfl)

theorem ends_evaluate (hparses : machine.parses limit request.frontEnd text = true)
    (hnumeral : request.frontEnd.overlong? text = none) (hmessages : (request.frontEnd.parse text).2 = [])
    (hmode : request.mode = .evaluate) :
    Ends machine limit request text (evaluate machine settings limit request.frontEnd text) := by
  have hother : request.mode ≠ .showTree := by rw [hmode]; decide
  by_cases hdepth : (program machine limit request text).outcome = .aborted .tooDeep
  · refine .overflowed (fun h => h.evaluates hnumeral hmode hdepth) (.inl ?_)
    rw [evaluate, ← program, hdepth]
  obtain ⟨v, hv⟩ := exists_outcome_of_program hmessages hdepth
  have hsuffices (hshows : (∀ e, v ≠ .error e) → v ≠ .null → machine.showsValue limit v = true) :
      Suffices machine limit request text := by
    refine ⟨hparses, fun _ h => absurd h hother, fun _ _ => hdepth, fun _ _ u hu => ?_⟩
    obtain rfl := Outcome.finished.inj (hv.symm.trans hu)
    exact hshows
  have hwell (hv' : ∀ e, v ≠ .error e) (hshows : v ≠ .null → machine.showsValue limit v = true) {result : Result}
      (hending : result.ending = .exit 0) : Ends machine limit request text result := by
    refine .well (hsuffices fun _ => hshows) hnumeral hmessages (fun _ e he => ?_) hending
    exact hv' e (Outcome.finished.inj (hv.symm.trans he))
  rw [evaluate, ← program, hv]
  cases v with
  | error e =>
    have h := Ends.failed (hsuffices fun h => absurd rfl (h e)) hnumeral hmessages hmode hv
    rwa [errorLines_singleton] at h
  | null => exact hwell (fun _ => Value.noConfusion) (fun h => absurd rfl h) rfl
  | _ =>
    dsimp only
    split
    · next hshows => exact hwell (fun _ => Value.noConfusion) (fun _ => hshows) rfl
    · next hshows =>
      refine .overflowed (fun h => hshows ?_) (.inr rfl)
      exact h.showsValue hnumeral hmode _ hv (fun _ => Value.noConfusion) Value.noConfusion

theorem ends_perform (hmode : request.mode ≠ .showTokens) :
    Ends machine limit request text (perform machine settings limit request.frontEnd text request.mode) := by
  unfold perform
  split
  · next hparses =>
    split
    · next numeral hnumeral =>
      have hsome : request.frontEnd.overlong? text ≠ none := by simp [hnumeral]
      exact .brokenOff ⟨hparses, fun h => absurd h hsome, fun h => absurd h hsome, fun h => absurd h hsome⟩ hnumeral
    · next hnumeral =>
      by_cases hmessages : (request.frontEnd.parse text).2 = []
      · split
        · next hmode => exact ends_showTree hparses hnumeral hmessages hmode
        · next htree =>
          refine ends_evaluate hparses hnumeral hmessages ?_
          cases h : request.mode with
          | evaluate => rfl
          | showTokens => exact absurd h hmode
          | showTree => exact absurd h htree
      · rw [showTree_of_messages hmessages, evaluate_of_messages hmessages, ite_self]
        exact .malformed (suffices_of_messages hparses hmessages) hnumeral hmessages
  · next hparses => exact .overflowed (fun h => hparses h.parses) (.inl rfl)

namespace Ends

variable {result : Result}

theorem ending_of_overflow (h : Ends machine limit request text result)
    (hoverflow : ¬Suffices machine limit request text) :
    result.ending = .exit 70 ∨ result.ending = .crash .valueTooDeep := by
  cases h with
  | overflowed _ hending => exact hending
  | brokenOff h | malformed h | failed h | well h => exact absurd h hoverflow

theorem eq_of_numeral (h : Ends machine limit request text result) (hsuffices : Suffices machine limit request text)
    {numeral : Token} (hnumeral : request.frontEnd.overlong? text = some numeral) :
    result = ⟨.crash (.overlong request.frontEnd numeral), "", "", none⟩ := by
  cases h with
  | overflowed h => exact absurd hsuffices h
  | brokenOff _ hnumeral' => rw [Option.some.inj (hnumeral.symm.trans hnumeral')]
  | malformed _ hnone | failed _ hnone | well _ hnone => cases hnumeral.symm.trans hnone

/-- The exit code tells whether there are errors, and these stand alone in the standard error stream. -/
theorem tells (h : Ends machine limit request text result) (hsuffices : Suffices machine limit request text)
    (hnumeral : request.frontEnd.overlong? text = none) (warning : String) :
    (result.ending = .exit 0 ↔ (request.frontEnd.parse text).2 = [] ∧
      (request.mode = .evaluate → ∀ e, (program machine limit request text).outcome ≠ .finished (.error e))) ∧
    (result.ending ≠ .exit 0 → result.ending = .exit 1) ∧
    (result.ending = .exit 1 →
      (request.frontEnd.parse text).2 ≠ [] ∧ result.stdout = "" ∧
        warning ++ result.stderr = warning ++ errorLines (request.frontEnd.parse text).2 ∨
      request.mode = .evaluate ∧ (request.frontEnd.parse text).2 = [] ∧
        ∃ e, (program machine limit request text).outcome = .finished (.error e) ∧
          result.stdout = (program machine limit request text).printed ∧
          warning ++ result.stderr = warning ++ errorLines [e.message]) := by
  have hone : Ending.exit 1 ≠ .exit 0 := by decide
  cases h with
  | overflowed h => exact absurd hsuffices h
  | brokenOff _ hsome => cases hsome.symm.trans hnumeral
  | malformed _ _ hmessages =>
    exact ⟨iff_of_false hone fun h => hmessages h.1, fun _ => rfl, fun _ => .inl ⟨hmessages, rfl, rfl⟩⟩
  | failed _ _ hmessages hmode he =>
    exact ⟨iff_of_false hone fun h => h.2 hmode _ he, fun _ => rfl, fun _ => .inr ⟨hmode, hmessages, _, he, rfl, rfl⟩⟩
  | well _ _ hmessages hvalue hending =>
    exact ⟨iff_of_true hending ⟨hmessages, hvalue⟩, fun h => absurd hending h,
      fun h => absurd (hending.symm.trans h) hone.symm⟩

end Ends

/-! ## The outcome -/

theorem withLimit_of_refused {crash : Crash} (h : machine.refusal? settings.limit.value? = some crash)
    (work : Option Nat → Result) :
    withLimit machine settings work = ⟨.crash crash, "", settings.limit.warning, none⟩ := by
  rw [withLimit, h]

theorem withLimit_of_accepted (h : machine.refusal? settings.limit.value? = none) (work : Option Nat → Result) :
    withLimit machine settings work =
      { work settings.limit.value? with
        stderr := settings.limit.warning ++ (work settings.limit.value?).stderr
        limit := settings.limit.value? } := by
  rw [withLimit, h]

/-- What a command line comes to.  If arguments settle the matter, the first of them decides alone: help is shown, or
nothing but a usage error, and no text is read or worked on.  Otherwise the flags that set the mode have to keep their
order, but the arguments need not keep theirs, and a flag may be repeated.

Tokens are shown of every text.  For anything else the limit on nested calls is put in force first, and the process
crashes if it cannot be.  If calls do not nest too deep, the process crashes at a numeral at which the front end breaks
off.  Otherwise the exit code tells whether there are errors, and these stand behind the warning about the settings;
what the program printed stands apart. -/
theorem outcome_of_arguments (machine : Machine) (settings : Settings) (arguments : List String) (stdin : String)
    (files : String → File) :
    (Host.given machine settings stdin files).run arguments = run machine settings arguments stdin files ∧
    (¬Unsettled arguments → ∃ before argument after,
      arguments = before ++ argument :: after ∧ Unsettled before ∧ Settles before argument ∧
      run machine settings arguments stdin files = verdict argument ∧
      (IsHelp argument → (verdict argument).ending = .exit 0 ∧ (verdict argument).stdout = usage ++ "\n") ∧
      (¬IsHelp argument → (verdict argument).ending = .exit 2 ∧ (verdict argument).stdout = "") ∧
      ∀ (m : Type → Type) [Monad m] (host : Host m), host.run arguments = pure (verdict argument)) ∧
    (Unsettled arguments →
      (∀ arguments' : List String, arguments'.Perm arguments →
        arguments'.filter (SetsMode ·) = arguments.filter (SetsMode ·) →
        run machine settings arguments' stdin files = run machine settings arguments stdin files) ∧
      ∀ before flag after, arguments = before ++ flag :: after → IsFlag flag →
        run machine settings (before ++ flag :: flag :: after) stdin files =
          run machine settings arguments stdin files) ∧
    (Unsettled arguments → ∀ text, source (requestOf arguments).input stdin files = .ok text →
      let request := requestOf arguments
      let limit := settings.limit.value?
      let messages := (request.frontEnd.parse text).2
      let outcome := (program machine limit request text).outcome
      let result := run machine settings arguments stdin files
      (request.mode = .showTokens → result.ending = .exit 0 ∧ result.stderr = "") ∧
      (request.mode ≠ .showTokens →
        (∀ crash, machine.refusal? limit = some crash →
          result = ⟨.crash crash, "", settings.limit.warning, none⟩) ∧
        (machine.refusal? limit = none → ¬Suffices machine limit request text →
          result.ending = .exit 70 ∨ result.ending = .crash .valueTooDeep) ∧
        (machine.refusal? limit = none → Suffices machine limit request text →
          (∀ numeral, request.frontEnd.overlong? text = some numeral →
            result = ⟨.crash (.overlong request.frontEnd numeral), "", settings.limit.warning, limit⟩) ∧
          (request.frontEnd.overlong? text = none →
            (result.ending = .exit 0 ↔
              messages = [] ∧ (request.mode = .evaluate → ∀ e, outcome ≠ .finished (.error e))) ∧
            (result.ending ≠ .exit 0 → result.ending = .exit 1) ∧
            (result.ending = .exit 1 →
              messages ≠ [] ∧ result.stdout = "" ∧ result.stderr = settings.limit.warning ++ errorLines messages ∨
              request.mode = .evaluate ∧ messages = [] ∧ ∃ e, outcome = .finished (.error e) ∧
                result.stdout = (program machine limit request text).printed ∧
                result.stderr = settings.limit.warning ++ errorLines [e.message]))))) := by
  refine ⟨run_given arguments, fun hsettled => ?_, fun h => ⟨?_, ?_⟩, ?_⟩
  · obtain ⟨before, argument, after, rfl, hbefore, hargument⟩ := exists_settles hsettled
    refine ⟨before, argument, after, rfl, hbefore, hargument, ?_, fun hhelp => ?_, fun hhelp => ?_,
      fun m _ host => run_of_settles host hbefore hargument after⟩
    · rw [← run_given]
      exact run_of_settles _ hbefore hargument after
    · rw [verdict, if_pos hhelp]
      exact ⟨rfl, rfl⟩
    · rw [verdict, if_neg hhelp]
      exact ⟨rfl, rfl⟩
  · intro arguments' hperm hmodes
    obtain ⟨h', hrequest⟩ := requestOf_of_perm h hperm hmodes
    rw [run, run, decideFrom_of_unsettled h, decideFrom_of_unsettled h', hrequest]
  · rintro before flag after rfl hflag
    obtain ⟨h', hrequest⟩ := requestOf_of_repeated h hflag
    rw [run, run, decideFrom_of_unsettled h, decideFrom_of_unsettled h', hrequest]
  · intro h text hsource request limit messages outcome result
    have hresult : result = fulfil machine settings request text := run_of_unsettled h hsource
    rw [hresult, fulfil]
    refine ⟨fun hmode => ?_, fun hmode => ?_⟩
    · rw [if_pos hmode]
      exact ⟨rfl, rfl⟩
    rw [if_neg hmode]
    refine ⟨fun crash hcrash => withLimit_of_refused hcrash _, fun hforce hoverflow => ?_, fun hforce hsuffices => ?_⟩
    · rw [withLimit_of_accepted hforce]
      exact (ends_perform hmode).ending_of_overflow hoverflow
    · rw [withLimit_of_accepted hforce]
      have hends := @ends_perform machine settings limit request text hmode
      refine ⟨fun numeral hnumeral => ?_, fun hnumeral => ?_⟩
      · rw [hends.eq_of_numeral hsuffices hnumeral, String.append_empty]
      · exact hends.tells hsuffices hnumeral settings.limit.warning

/-- A program that prints and then fails, with its arguments in either order. -/
theorem outcome_of_failing_program :
    let machine := Machine.roomy fun _ => 1000
    let arguments := ["--lark", "puts(1); x"]
    let files : String → File := fun _ => .missing
    let request : Request := ⟨.evaluate, .automaton, some "puts(1); x"⟩
    let outcome := (program machine none request "puts(1); x").outcome
    Unsettled arguments ∧ Suffices machine none request "puts(1); x" ∧
      request.frontEnd.overlong? "puts(1); x" = none ∧
      run machine .none ["puts(1); x", "--lark"] "" files = run machine .none arguments "" files ∧
      (run machine .none arguments "" files).ending = .exit 1 ∧
      ∃ e, outcome = .finished (.error e) ∧
        (run machine .none arguments "" files).stdout = (program machine none request "puts(1); x").printed ∧
        (run machine .none arguments "" files).stderr = "" ++ errorLines [e.message] := by
  intro machine arguments files request outcome
  have h : Unsettled arguments := unsettled_iff.2 (by decide +kernel)
  have hrequest : requestOf arguments = request := by decide +kernel
  have hmessages : (FrontEnd.automaton.parse "puts(1); x").2 = [] := by decide +kernel
  have hnumeral : request.frontEnd.overlong? "puts(1); x" = none := by decide +kernel
  have hvalue : outcome.value?.isSome = true := by decide +kernel
  have hdepth : outcome ≠ .aborted .tooDeep := fun habort => by
    rw [habort] at hvalue
    cases hvalue
  have hsuffices : Suffices machine none request "puts(1); x" :=
    ⟨rfl, fun _ _ _ => rfl, fun _ _ => hdepth, fun _ _ _ _ _ _ => rfl⟩
  have hexit : (run machine .none arguments "" files).ending = .exit 1 := by decide +kernel
  obtain ⟨-, -, horder, houtcome⟩ := outcome_of_arguments machine .none arguments "" files
  refine ⟨h, hsuffices, hnumeral, (horder h).1 _ (List.Perm.swap _ _ []) (by decide +kernel), hexit, ?_⟩
  have htells := houtcome h "puts(1); x" rfl
  rw [hrequest] at htells
  rcases ((htells.2 (by decide)).2.2 rfl hsuffices).2 hnumeral |>.2.2 hexit with ⟨hmalformed, -⟩ | ⟨-, -, hreport⟩
  · exact absurd hmessages hmalformed
  · exact hreport

/-- A numeral with too many digits is not reported as an error, whatever the machine. -/
theorem run_of_digits {cs : List Char} (hdigits : cs.all Char.isDigit = true) (hlength : Text.maxDigits < cs.length)
    (hforce : machine.refusal? settings.limit.value? = none)
    (hparses : machine.parses settings.limit.value? .descent (String.ofList cs) = true) :
    run machine settings [] (String.ofList cs) files =
      ⟨.crash (.overlong .descent ⟨.integer, String.ofList cs, .start⟩), "", settings.limit.warning,
        settings.limit.value?⟩ := by
  have hne : (String.ofList cs).isEmpty = false := by
    rw [String.isEmpty_eq_false_iff, Ne, ← String.toList_eq_nil_iff, String.toList_ofList]
    exact List.ne_nil_of_length_pos (Nat.lt_of_le_of_lt (Nat.zero_le _) hlength)
  have hrun : run machine settings [] (String.ofList cs) files =
      fulfil machine settings .initial (String.ofList cs) := by
    simp only [run, decideFrom, Request.initial, source, hne, Bool.false_eq_true, if_false]
  rw [hrun, fulfil, if_neg (by decide), withLimit_of_accepted hforce, perform, Request.initial, if_pos hparses,
    overlong?_of_digits hdigits hlength, String.append_empty]

/-- The process crashes at a numeral that the front end finds to be too large, and at a limit that is too large, though
the program has a value. -/
theorem outcome_of_crashes :
    let machine := Machine.roomy fun _ => 1000
    let files : String → File := fun _ => .missing
    let source := String.ofList (List.replicate 4400 '1')
    let broken := run machine .none [] source files
    let refused := run machine ⟨none, some "99999999999", none⟩ ["1"] "" files
    (FrontEnd.descent.parse source).2 ≠ [] ∧ broken.ending ≠ .exit 1 ∧ broken.stderr = "" ∧
      (FrontEnd.descent.parse "1").2 = [] ∧
      (program machine (some 99999999999) ⟨.evaluate, .descent, some "1"⟩ "1").outcome = .finished (.integer 1) ∧
      refused.ending ≠ .exit 0 := by
  intro machine files source broken refused
  have hdigits : (List.replicate 4400 '1').all Char.isDigit = true := by
    rw [List.all_replicate]
    rfl
  have hlength : Text.maxDigits < (List.replicate 4400 '1').length := by
    rw [List.length_replicate]
    decide
  have hbroken : broken = ⟨.crash (.overlong .descent ⟨.integer, source, .start⟩), "", "", none⟩ :=
    @run_of_digits machine .none files _ hdigits hlength rfl rfl
  have hmessages : (FrontEnd.descent.parse source).2 ≠ [] := by
    rw [Ne, ← errors_eq_nil_iff, errors_of_digits hdigits hlength]
    exact List.cons_ne_nil _ _
  have hone : FrontEnd.descent.parse "1" = ([.expressionStatement (.integer 1)], []) := by decide +kernel
  refine ⟨hmessages, by rw [hbroken]; exact Ending.noConfusion, by rw [hbroken], by rw [hone], ?_, by decide +kernel⟩
  rw [program, Session.run_of_parse hone]
  with_unfolding_all rfl

end MonkeyLanguage.CommandLine
