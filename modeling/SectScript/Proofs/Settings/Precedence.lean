import SectScript.CommandLine

/-!
# Which layer decides a setting

Settings are folds, first of the entries of a settings file and then of the flags. A setting that
every item either replaces or leaves alone is decided by the last item that names it, so it is the
last flag that counts, then the file, then the default. Traces are not replaced but gathered. No
setting is named by flags of two names, so only the order among flags of one name matters.
-/

namespace SectScript

/-- What the last of the items gives that give anything. -/
def latest {α β : Type} (value? : β → Option α) (items : List β) : Option α :=
  (items.filterMap value?).getLast?

theorem latest_cons {α β : Type} (value? : β → Option α) (item : β) (items : List β) :
    latest value? (item :: items) = (latest value? items).or (value? item) := by
  rw [latest, latest, List.filterMap_cons]
  cases value? item with
  | none => simp
  | some a => cases h : (items.filterMap value?).getLast? <;> simp [List.getLast?_cons, h]

/-- What every item replaces or leaves alone is in the end what the last item made of it. -/
theorem foldl_latest {σ α β : Type} {step : σ → β → σ} {view : σ → α} {value? : β → Option α}
    (hstep : ∀ s item, view (step s item) = (value? item).getD (view s)) (s : σ) (items : List β) :
    view (items.foldl step s) = (latest value? items).getD (view s) := by
  induction items generalizing s with
  | nil => rfl
  | cons item items ih =>
    rw [List.foldl_cons, ih, hstep, latest_cons]
    cases latest value? items <;> rfl

/-! ## What one flag or entry says -/

/-- The settings that an item names, each with its value. -/
structure Given where
  dialect : Option Bytes := none
  color : Option Bool := none
  stats : Option Bool := none
  dump : Option Bool := none
  readPrompt : Option Bytes := none
  readTimeout : Option Int := none
  list : Option Bool := none
  version : Option Bool := none
  /-- The path of a settings file. -/
  config : Option Bytes := none
  /-- Something to trace, as a flag asks for it. -/
  trace : Option Bytes := none
  traceExec : Option Bool := none
  traceVars : Option Bool := none
  watched : Option (List Bytes) := none

/-- A time of any size, brought into 0 … 32767. -/
def Flag.boundedTime (seconds : Int) : Int :=
  if seconds < 0 then 0 else if 32767 < seconds then 32767 else seconds

def Flag.given : Flag → Given
  | color on => { color := on }
  | config path => { config := path }
  | dialect name => { dialect := name }
  | dump on => { dump := on }
  | list on => { list := on }
  | prompt text => { readPrompt := text }
  | stats on => { stats := on }
  | timeout seconds => { readTimeout := boundedTime seconds }
  | trace what => { trace := what }
  | version on => { version := on }

def Document.Entry.given : Document.Entry → Given
  | dialect name => { dialect := name }
  | color on => { color := on }
  | stats on => { stats := on }
  | dump on => { dump := on }
  | readPrompt text => { readPrompt := text }
  | readTimeout seconds => { readTimeout := seconds }
  | traceExec on => { traceExec := on }
  | traceVars on => { traceVars := on }
  | traceVariables names => { watched := names }

section Layers

variable {α : Type} (setting : Given → Option α) (es : List Document.Entry) (flags : List Flag)

/-- What the settings file says of a setting. -/
def filed : Option α := latest (fun e => setting e.given) es

/-- What the flags say of a setting. -/
def flagged : Option α := latest (fun f => setting f.given) flags

/-- What the flags say, else what the file says, else the default. -/
def chosen (default : α) : α := (flagged setting flags).getD ((filed setting es).getD default)

end Layers

/-- All that flags ask to trace, in order. -/
def traces (flags : List Flag) : List Bytes := flags.filterMap fun f => f.given.trace

/-- The variables among what flags ask to trace, without a sigil. -/
def watchedBy (flags : List Flag) : List Bytes :=
  ((traces flags).filter fun what => what ≠ ascii "exec" ∧ what ≠ ascii "vars").map
    (Bytes.dropPrefix sigil)

/-- Each setting is what the flags and the entries of a settings file make of it. -/
structure Settings.Decided (es : List Document.Entry) (flags : List Flag) (s : Settings) :
    Prop where
  dialect : s.dialect = chosen Given.dialect es flags []
  color : s.color = chosen Given.color es flags true
  stats : s.stats = chosen Given.stats es flags false
  dump : s.dump = chosen Given.dump es flags false
  readPrompt : s.readPrompt = chosen Given.readPrompt es flags []
  readTimeout : s.readTimeout = chosen Given.readTimeout es flags 0
  exec : s.trace.exec = true ↔ filed Given.traceExec es = some true ∨ ascii "exec" ∈ traces flags
  vars : s.trace.vars = true ↔ filed Given.traceVars es = some true ∨ ascii "vars" ∈ traces flags
  watched : s.trace.watched = (filed Given.watched es).getD [] ++ watchedBy flags
  list : s.list = (flagged Given.list flags).getD false
  version : s.version = (flagged Given.version flags).getD false

/-! ## Folding -/

namespace Settings

section Fold

variable {α : Type} {view : Settings → α} {setting : Given → Option α}

theorem view_enterAll (hstep : ∀ s e, view (s.enter e) = (setting e.given).getD (view s))
    (s : Settings) (es : List Document.Entry) :
    view (s.enterAll es) = (filed setting es).getD (view s) :=
  foldl_latest hstep s es

theorem view_setAll (hstep : ∀ s f, view (s.set f) = (setting f.given).getD (view s))
    (s : Settings) (flags : List Flag) :
    view (s.setAll flags) = (flagged setting flags).getD (view s) :=
  foldl_latest hstep s flags

theorem view_layered (hentry : ∀ s e, view (s.enter e) = (setting e.given).getD (view s))
    (hflag : ∀ s f, view (s.set f) = (setting f.given).getD (view s)) (es : List Document.Entry)
    (flags : List Flag) :
    view (CommandLine.layered es flags) = chosen setting es flags (view {}) := by
  rw [CommandLine.layered, view_setAll hflag, view_enterAll hentry, chosen]

end Fold

theorem clampTimeout_eq (seconds : Int) : clampTimeout seconds = Flag.boundedTime seconds := by
  rw [clampTimeout, Flag.boundedTime]
  split
  · omega
  · split <;> omega

/-! ## Traces -/

theorem traces_cons (f : Flag) (flags : List Flag) :
    traces (f :: flags) = traces [f] ++ traces flags :=
  @List.filterMap_append _ _ [f] flags fun f => f.given.trace

theorem watchedBy_cons (f : Flag) (flags : List Flag) :
    watchedBy (f :: flags) = watchedBy [f] ++ watchedBy flags := by
  simp only [watchedBy, traces_cons f flags, List.filter_append, List.map_append]

/-- A flag adds what it asks to trace. -/
theorem trace_set (s : Settings) (f : Flag) :
    ((s.set f).trace.exec = true ↔ s.trace.exec = true ∨ ascii "exec" ∈ traces [f]) ∧
    ((s.set f).trace.vars = true ↔ s.trace.vars = true ∨ ascii "vars" ∈ traces [f]) ∧
    (s.set f).trace.watched = s.trace.watched ++ watchedBy [f] := by
  cases f with
  | trace what =>
    have hother : ascii "exec" ≠ ascii "vars" := by decide
    have htraces : ∀ what, traces [.trace what] = [what] := fun _ => rfl
    by_cases hexec : what = ascii "exec"
    · simp [set, TraceSettings.add, htraces, watchedBy, hexec, hother.symm]
    · by_cases hvars : what = ascii "vars"
      · simp [set, TraceSettings.add, htraces, watchedBy, hvars, hother, hother.symm]
      · simp [set, TraceSettings.add, htraces, watchedBy, hexec, hvars, Ne.symm hexec,
          Ne.symm hvars, sigil]
  | _ => simp [set, traces, Flag.given, watchedBy]

theorem trace_setAll (s : Settings) (flags : List Flag) :
    ((s.setAll flags).trace.exec = true ↔ s.trace.exec = true ∨ ascii "exec" ∈ traces flags) ∧
    ((s.setAll flags).trace.vars = true ↔ s.trace.vars = true ∨ ascii "vars" ∈ traces flags) ∧
    (s.setAll flags).trace.watched = s.trace.watched ++ watchedBy flags := by
  induction flags generalizing s with
  | nil => simp [setAll, traces, watchedBy]
  | cons f flags ih =>
    obtain ⟨hexec, hvars, hwatched⟩ := trace_set s f
    rw [traces_cons, watchedBy_cons, List.mem_append, List.mem_append, ← or_assoc, ← or_assoc,
      ← List.append_assoc, ← hexec, ← hvars, ← hwatched]
    exact ih (s.set f)

/-! ## All layers -/

/-- What a file switches on is on if it says so. -/
theorem enterAll_switch {view : Settings → Bool} {setting : Given → Option Bool}
    (hstep : ∀ s e, view (s.enter e) = (setting e.given).getD (view s)) (hoff : view {} = false)
    (es : List Document.Entry) :
    view (({} : Settings).enterAll es) = true ↔ filed setting es = some true := by
  rw [view_enterAll hstep, hoff]
  cases filed setting es <;> simp

/-- What no entry of a file can name comes from the flags only. -/
theorem chosen_of_unfiled {α : Type} {setting : Given → Option α}
    (hunfiled : ∀ e : Document.Entry, setting e.given = none) (es : List Document.Entry)
    (flags : List Flag) (default : α) :
    chosen setting es flags default = (flagged setting flags).getD default := by
  have hnone : es.filterMap (fun e => setting e.given) = [] := by simp [hunfiled]
  simp [chosen, filed, latest, hnone]

theorem decided_layered (es : List Document.Entry) (flags : List Flag) :
    (CommandLine.layered es flags).Decided es flags := by
  obtain ⟨hexec, hvars, hwatched⟩ := trace_setAll (({} : Settings).enterAll es) flags
  refine ⟨?_, ?_, ?_, ?_, ?_, ?_, ?_, ?_, ?_, ?_, ?_⟩
  · exact view_layered (by rintro s ⟨⟩ <;> rfl) (by rintro s ⟨⟩ <;> rfl) es flags
  · exact view_layered (by rintro s ⟨⟩ <;> rfl) (by rintro s ⟨⟩ <;> rfl) es flags
  · exact view_layered (by rintro s ⟨⟩ <;> rfl) (by rintro s ⟨⟩ <;> rfl) es flags
  · exact view_layered (by rintro s ⟨⟩ <;> rfl) (by rintro s ⟨⟩ <;> rfl) es flags
  · exact view_layered (by rintro s ⟨⟩ <;> rfl) (by rintro s ⟨⟩ <;> rfl) es flags
  · refine view_layered (by rintro s ⟨⟩ <;> rfl) (fun s f => ?_) es flags
    cases f with
    | timeout seconds => exact clampTimeout_eq seconds
    | _ => rfl
  · rw [← @enterAll_switch (fun s => s.trace.exec) _ (by rintro s ⟨⟩ <;> rfl) rfl]
    exact hexec
  · rw [← @enterAll_switch (fun s => s.trace.vars) _ (by rintro s ⟨⟩ <;> rfl) rfl]
    exact hvars
  · have hfile := @view_enterAll _ (fun s => s.trace.watched) Given.watched
      (by rintro s ⟨⟩ <;> rfl) {} es
    rw [CommandLine.layered, hwatched]
    exact congrArg (· ++ watchedBy flags) hfile
  · rw [← chosen_of_unfiled (by rintro ⟨⟩ <;> rfl) es]
    exact view_layered (by rintro s ⟨⟩ <;> rfl) (by rintro s ⟨⟩ <;> rfl) es flags
  · rw [← chosen_of_unfiled (by rintro ⟨⟩ <;> rfl) es]
    exact view_layered (by rintro s ⟨⟩ <;> rfl) (by rintro s ⟨⟩ <;> rfl) es flags

theorem Decided.unique {es : List Document.Entry} {flags : List Flag} {s s' : Settings}
    (h : s.Decided es flags) (h' : s'.Decided es flags) : s = s' := by
  have htrace : s.trace = s'.trace := by
    have hexec := Bool.eq_iff_iff.mpr (h.exec.trans h'.exec.symm)
    have hvars := Bool.eq_iff_iff.mpr (h.vars.trans h'.vars.symm)
    have hwatched := h.watched.trans h'.watched.symm
    cases htrace : s.trace
    cases htrace' : s'.trace
    simp_all
  cases s
  cases s'
  obtain ⟨hdialect, hcolor, hstats, hdump, hprompt, htimeout, -, -, -, hlist, hversion⟩ := h
  obtain ⟨hdialect', hcolor', hstats', hdump', hprompt', htimeout', -, -, -, hlist', hversion'⟩ :=
    h'
  simp_all

end Settings

/-! ## The order of flags -/

/-- The name by which a flag is given. -/
def Flag.name : Flag → Bytes
  | color _ => ascii "color"
  | config _ => ascii "config"
  | dialect _ => ascii "dialect"
  | dump _ => ascii "dump"
  | list _ => ascii "list"
  | prompt _ => ascii "prompt"
  | stats _ => ascii "stats"
  | timeout _ => ascii "timeout"
  | trace _ => ascii "trace"
  | version _ => ascii "version"

/-- Each setting that is named has a flag of this name. -/
structure Given.Of (name : Bytes) (g : Given) : Prop where
  dialect : name ≠ ascii "dialect" → g.dialect = none
  color : name ≠ ascii "color" → g.color = none
  stats : name ≠ ascii "stats" → g.stats = none
  dump : name ≠ ascii "dump" → g.dump = none
  readPrompt : name ≠ ascii "prompt" → g.readPrompt = none
  readTimeout : name ≠ ascii "timeout" → g.readTimeout = none
  list : name ≠ ascii "list" → g.list = none
  version : name ≠ ascii "version" → g.version = none
  config : name ≠ ascii "config" → g.config = none
  trace : name ≠ ascii "trace" → g.trace = none

theorem Flag.given_of_name (f : Flag) : f.given.Of f.name := by
  cases f <;> constructor <;> simp [name, given]

/-- The flags of each name are the same, in the same order. -/
def Rearranged (flags flags' : List Flag) : Prop :=
  ∀ name, flags.filter (fun f => f.name == name) = flags'.filter (fun f => f.name == name)

instance (flags flags' : List Flag) : Decidable (Rearranged flags flags') :=
  decidable_of_iff (∀ name ∈ (flags ++ flags').map Flag.name,
      flags.filter (fun f => f.name == name) = flags'.filter (fun f => f.name == name)) (by
    refine ⟨fun h name => ?_, fun h name _ => h name⟩
    by_cases hname : name ∈ (flags ++ flags').map Flag.name
    · exact h name hname
    · -- There is no flag of this name on either side.
      have hnone : ∀ f ∈ flags ++ flags', ¬ f.name = name := by
        intro f hf heq
        exact hname (List.mem_map.mpr ⟨f, hf, heq⟩)
      rw [List.filter_eq_nil_iff.mpr, List.filter_eq_nil_iff.mpr]
      · intro f hf
        simpa using hnone f (List.mem_append_right _ hf)
      · intro f hf
        simpa using hnone f (List.mem_append_left _ hf))

namespace Rearranged

variable {flags flags' : List Flag} (h : Rearranged flags flags')
include h

theorem filterMap_eq {α : Type} {value? : Flag → Option α} {name : Bytes}
    (honly : ∀ f, f.name ≠ name → value? f = none) :
    flags.filterMap value? = flags'.filterMap value? := by
  have hfilter : ∀ fs : List Flag, fs.filterMap value? =
      (fs.filter fun f => f.name == name).filterMap value? := by
    intro fs
    rw [List.filterMap_filter]
    congr 1
    funext f
    by_cases hname : f.name = name
    · simp [hname]
    · simp [hname, honly f hname]
  rw [hfilter flags, hfilter flags', h name]

theorem flagged_eq {α : Type} {setting : Given → Option α} {name : Bytes}
    (honly : ∀ f : Flag, f.name ≠ name → setting f.given = none) :
    flagged setting flags = flagged setting flags' := by
  rw [flagged, flagged, latest, latest, h.filterMap_eq honly]

theorem chosen_eq {α : Type} {setting : Given → Option α} {name : Bytes}
    (honly : ∀ f : Flag, f.name ≠ name → setting f.given = none) (es : List Document.Entry)
    (default : α) : chosen setting es flags default = chosen setting es flags' default := by
  rw [chosen, chosen, h.flagged_eq honly]

/-- Rearranged flags decide the same. -/
theorem decided {es : List Document.Entry} {s : Settings} (hs : s.Decided es flags) :
    s.Decided es flags' := by
  have htraces : traces flags = traces flags' := h.filterMap_eq fun f => f.given_of_name.trace
  refine ⟨?_, ?_, ?_, ?_, ?_, ?_, ?_, ?_, ?_, ?_, ?_⟩
  · exact hs.dialect.trans (h.chosen_eq (fun f => f.given_of_name.dialect) es [])
  · exact hs.color.trans (h.chosen_eq (fun f => f.given_of_name.color) es true)
  · exact hs.stats.trans (h.chosen_eq (fun f => f.given_of_name.stats) es false)
  · exact hs.dump.trans (h.chosen_eq (fun f => f.given_of_name.dump) es false)
  · exact hs.readPrompt.trans (h.chosen_eq (fun f => f.given_of_name.readPrompt) es [])
  · exact hs.readTimeout.trans (h.chosen_eq (fun f => f.given_of_name.readTimeout) es 0)
  · rw [← htraces]
    exact hs.exec
  · rw [← htraces]
    exact hs.vars
  · rw [hs.watched, watchedBy, watchedBy, htraces]
  · rw [hs.list, h.flagged_eq fun f => f.given_of_name.list]
  · rw [hs.version, h.flagged_eq fun f => f.given_of_name.version]

end Rearranged

/-! ## Command lines -/

namespace CommandLine

theorem namedPath_eq (flags : List Flag) :
    namedPath flags = (flagged Given.config flags).getD [] :=
  @foldl_latest _ _ _ _ id _ (by rintro path ⟨⟩ <;> rfl) [] flags

section Supplies

variable (decode : Decoder) (read : FileReader) (flags : List Flag)

/-- The entries that stand behind the flags: what is decoded of the settings file. A file without a
document has none, and neither has the default one if it is not there. -/
inductive Supplies : List Document.Entry → Prop
  | decoded {data : Bytes} {es : List Document.Entry} (file : read (settingsPath flags) = .ok data)
      (content : decode data = .ok es) : Supplies es
  | blank {data : Bytes} (file : read (settingsPath flags) = .ok data)
      (content : decode data = .error .noDocument) : Supplies []
  | absent (unnamed : namedPath flags = []) (file : read defaultPath = .error .missing) :
      Supplies []

variable {decode read flags}

theorem entriesWith_eq_ok_iff {es : List Document.Entry} :
    entriesWith decode read flags = .ok es ↔ Supplies decode read flags es := by
  constructor
  · intro h
    rw [entriesWith] at h
    split at h
    case h_1 why hfile =>
      split at h
      case isTrue hmissing =>
        simp only [Bool.and_eq_true, decide_eq_true_eq, List.isEmpty_iff] at hmissing
        obtain ⟨rfl, hunnamed⟩ := hmissing
        obtain rfl := Except.ok.inj h
        refine .absent hunnamed ?_
        simpa [settingsPath, hunnamed] using hfile
      case isFalse => cases h
    case h_2 data hfile =>
      split at h
      case h_1 es' hcontent =>
        obtain rfl := Except.ok.inj h
        exact .decoded hfile hcontent
      case h_2 hcontent =>
        obtain rfl := Except.ok.inj h
        exact .blank hfile hcontent
      case h_3 => cases h
      case h_4 => cases h
  · intro h
    cases h with
    | decoded file content => simp only [entriesWith, file, content]
    | blank file content => simp only [entriesWith, file, content]
    | absent unnamed file => simp [entriesWith, settingsPath, unnamed, file]

end Supplies

theorem entriesWith_of_rearranged {flags flags' : List Flag} (h : Rearranged flags flags')
    (decode : Decoder) (read : FileReader) :
    entriesWith decode read flags' = entriesWith decode read flags := by
  have hpath : namedPath flags' = namedPath flags := by
    rw [namedPath_eq, namedPath_eq, h.flagged_eq fun f => f.given_of_name.config]
  rw [entriesWith, entriesWith, settingsPath, settingsPath, hpath]

section Parse

variable {args : List Bytes} {flags : List Flag} {files : List Bytes}
  (hsplit : Flag.split args = .ok (flags, files)) (decode : Decoder) (read : FileReader)
include hsplit

/-- The result of a command line, once its flags are known. -/
theorem parseWith_eq : parseWith decode read args =
    if flagged Given.version flags = some true ∨ files.length = 1 then
      (entriesWith decode read flags).map fun es => { settings := layered es flags, files }
    else .error .usage := by
  have hversion : (({} : Settings).setAll flags).version =
      (flagged Given.version flags).getD false := (Settings.decided_layered [] flags).version
  have htest : (!(flagged Given.version flags).getD false && decide (files.length ≠ 1)) = true ↔
      ¬ (flagged Given.version flags = some true ∨ files.length = 1) := by
    rcases flagged Given.version flags with _ | _ | _ <;> simp
  rw [parseWith, hsplit]
  dsimp only
  rw [hversion]
  by_cases henough : flagged Given.version flags = some true ∨ files.length = 1
  · rw [if_pos henough, if_neg fun htrue => htest.mp htrue henough]
    cases entriesWith decode read flags <;> rfl
  · rw [if_neg henough, if_pos (htest.mpr henough)]

theorem parseWith_eq_ok_iff (line : CommandLine) :
    parseWith decode read args = .ok line ↔
      (flagged Given.version flags = some true ∨ files.length = 1) ∧
        ∃ es, Supplies decode read flags es ∧ line = ⟨layered es flags, files⟩ := by
  rw [parseWith_eq hsplit]
  simp only [← entriesWith_eq_ok_iff]
  by_cases henough : flagged Given.version flags = some true ∨ files.length = 1
  · rw [if_pos henough]
    cases entriesWith decode read flags with
    | error r => simp [Except.map]
    | ok es =>
      constructor
      · intro h
        exact ⟨henough, es, rfl, (Except.ok.inj h).symm⟩
      · rintro ⟨-, es', hes, rfl⟩
        obtain rfl := Except.ok.inj hes
        rfl
  · simp [henough]

end Parse

/-- Once the flags of a command line are known and its settings file is decoded, in whatever way,
every setting is decided by the last flag that names it, else by the file, else by default; traces
are gathered from both, and a time is bounded. There is a result just if the version is asked for or
one program file is named. Flags of different names can be given in any order. -/
theorem settings_decided (decode : Decoder) (read : FileReader) {args : List Bytes}
    {flags : List Flag} {files : List Bytes} (hsplit : Flag.split args = .ok (flags, files)) :
    (∀ es, Supplies decode read flags es →
      flagged Given.version flags = some true ∨ files.length = 1 →
        ∃ s : Settings, parseWith decode read args = .ok ⟨s, files⟩ ∧ s.Decided es flags) ∧
    (∀ line, parseWith decode read args = .ok line →
      (line.settings.version = true ∨ line.files.length = 1) ∧ line.files = files ∧
        ∃ es, Supplies decode read flags es ∧ line.settings.Decided es flags) ∧
    ∀ args' flags', Flag.split args' = .ok (flags', files) → Rearranged flags flags' →
      parseWith decode read args' = parseWith decode read args := by
  refine ⟨?_, ?_, ?_⟩
  · intro es hes henough
    exact ⟨layered es flags,
      (parseWith_eq_ok_iff hsplit decode read _).mpr ⟨henough, es, hes, rfl⟩,
      Settings.decided_layered es flags⟩
  · intro line hline
    obtain ⟨henough, es, hes, rfl⟩ := (parseWith_eq_ok_iff hsplit decode read line).mp hline
    have hdecided := Settings.decided_layered es flags
    refine ⟨henough.imp_left ?_, rfl, es, hes, hdecided⟩
    intro hversion
    rw [hdecided.version, hversion]
    rfl
  · intro args' flags' hsplit' hrearranged
    have hsame : ∀ es, layered es flags' = layered es flags := fun es =>
      (Settings.decided_layered es flags').unique
        (hrearranged.decided (Settings.decided_layered es flags))
    rw [parseWith_eq hsplit', parseWith_eq hsplit, entriesWith_of_rearranged hrearranged,
      hrearranged.flagged_eq fun f => f.given_of_name.version]
    simp only [hsame]

theorem eq_ok_of_toOption {ε α : Type} {x : Except ε α} {a : α} (h : x.toOption = some a) :
    x = .ok a := by
  cases x with
  | error e => cases h
  | ok b => exact congrArg Except.ok (Option.some.inj h)

/-- A settings file that switches colours off, sets a time and watches `a`. -/
def sampleFiles : FileReader := fun path =>
  if path = ascii "s.yaml" then
    .ok (ascii "color: false\nread_timeout: 9\ntrace: \x7bvars: true, variables: [a]\x7d\n")
  else .error .missing

def sampleArgs : List Bytes :=
  ["-timeout=40000", "-color=0", "-trace", "$x", "-config", "s.yaml", "-color", "-trace=exec",
    "p.lnh"].map ascii

def sampleFlags : List Flag :=
  [.timeout 40000, .color false, .trace (ascii "$x"), .config (ascii "s.yaml"), .color true,
    .trace (ascii "exec")]

/-- The same with the flags in another order. -/
def sampleArgs' : List Bytes :=
  ["-config=s.yaml", "-color=0", "-color", "-trace", "$x", "-trace=exec", "-timeout", "40000",
    "p.lnh"].map ascii

/-- The file is overridden in colours and time, and added to in traces; of two switches for colours
the last counts. -/
theorem settings_decided_overriding : ∃ s es, Supplies Document.decode sampleFiles sampleFlags es ∧
    Flag.split sampleArgs = .ok (sampleFlags, [ascii "p.lnh"]) ∧
    parse sampleFiles sampleArgs = .ok ⟨s, [ascii "p.lnh"]⟩ ∧
    filed Given.color es = some false ∧ s.color = true ∧
    filed Given.readTimeout es = some 9 ∧ s.readTimeout = 32767 ∧
    s.trace.exec = true ∧ s.trace.vars = true ∧ s.trace.watched = [ascii "a", ascii "x"] ∧
    parse sampleFiles sampleArgs' = parse sampleFiles sampleArgs := by
  have hsplit : Flag.split sampleArgs = .ok (sampleFlags, [ascii "p.lnh"]) :=
    eq_ok_of_toOption (by decide +kernel)
  obtain ⟨flags', hsplit', hrearranged⟩ : ∃ flags',
      Flag.split sampleArgs' = .ok (flags', [ascii "p.lnh"]) ∧ Rearranged sampleFlags flags' :=
    ⟨[.config (ascii "s.yaml"), .color false, .color true, .trace (ascii "$x"),
      .trace (ascii "exec"), .timeout 40000], eq_ok_of_toOption (by decide +kernel),
      by decide +kernel⟩
  have hes : Supplies Document.decode sampleFiles sampleFlags
      [.color false, .readTimeout 9, .traceVars true, .traceVariables [ascii "a"]] :=
    .decoded rfl (eq_ok_of_toOption (by decide +kernel))
  obtain ⟨hresult, -, horder⟩ := settings_decided Document.decode sampleFiles hsplit
  obtain ⟨s, hs, hdecided⟩ := hresult _ hes (Or.inr rfl)
  exact ⟨s, _, hes, hsplit, hs, by decide, hdecided.color.trans (by decide), by decide,
    hdecided.readTimeout.trans (by decide), hdecided.exec.mpr (Or.inr (by decide)),
    hdecided.vars.mpr (Or.inl (by decide)), hdecided.watched.trans (by decide),
    horder sampleArgs' flags' hsplit' hrearranged⟩

end CommandLine

end SectScript
