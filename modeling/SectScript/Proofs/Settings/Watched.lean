import SectScript.Proofs.Machine.Journal
import SectScript.Proofs.Settings.Precedence
import SectScript.Proofs.Statement.Within

/-!
# Which variables are watched

A variable to watch is named by a flag or listed in the settings file, with its sigil or without.
The settings keep a listed name as it is written and the name of a flag without a sigil; the watch
takes a sigil off both. So a flag loses up to two sigils where a listed name loses one. That makes
no difference but for names that begin with two of them, which a variable whose own name begins with
a sigil needs.
-/

namespace SectScript

/-! ## Sigils -/

/-- The name without one sigil, if there is one. -/
abbrev unsigiled (name : Bytes) : Bytes := Bytes.dropPrefix sigil name

theorem unsigiled_append (name : Bytes) : unsigiled (sigil ++ name) = name := by
  rw [unsigiled, Bytes.dropPrefix, Bytes.isPrefixOf?_append, Option.getD_some]

theorem unsigiled_eq_self_iff (name : Bytes) :
    unsigiled name = name ↔ Bytes.startsWith sigil name = false := by
  rw [unsigiled, Bytes.dropPrefix, Bytes.startsWith, ← List.isSome_isPrefixOf?_eq_isPrefixOf]
  cases hname : sigil.isPrefixOf? name with
  | none => simp
  | some rest =>
    obtain rfl := List.append_eq_of_isPrefixOf?_eq_some hname
    simp [sigil, ascii]

/-- A second sigil is taken off only where there are two. -/
theorem unsigiled_unsigiled_iff (name : Bytes) :
    unsigiled (unsigiled name) = unsigiled name ↔
      Bytes.startsWith (sigil ++ sigil) name = false := by
  rw [unsigiled_eq_self_iff]
  cases hone : Bytes.startsWith sigil name with
  | true =>
    obtain ⟨rest, rfl⟩ := Bytes.startsWith_iff.mp hone
    rw [unsigiled_append]
    simp [Bytes.startsWith, sigil, ascii]
  | false =>
    have htwo : Bytes.startsWith (sigil ++ sigil) name = false := by
      rw [← Bool.not_eq_true, Bytes.startsWith_iff] at hone ⊢
      rintro ⟨rest, rfl⟩
      exact hone ⟨sigil ++ rest, List.append_assoc ..⟩
    rw [(unsigiled_eq_self_iff name).mpr hone]
    exact iff_of_true hone htwo

/-! ## What a watch wants -/

namespace Watch

theorem wantsVariable_iff (w : Watch) (name : Bytes) :
    w.wantsVariable name = true ↔ w.vars = true ∨ name ∈ w.names := by
  simp [wantsVariable]

theorem changed_ne_nil_iff (w : Watch) (name : Bytes) (before : Option Value) (now : Value) :
    w.changed name before now ≠ [] ↔ w.wantsVariable name = true := by
  rw [changed]
  split <;> simp_all

/-- Watches tell the same of every change exactly if they want the same variables. -/
theorem changed_eq_iff (w w' : Watch) :
    (∀ name before now, w.changed name before now = w'.changed name before now) ↔
      ∀ name, w.wantsVariable name = true ↔ w'.wantsVariable name = true := by
  constructor
  · intro h name
    have hnil := h name none (.text [])
    rw [← w.changed_ne_nil_iff name none (.text []), hnil, w'.changed_ne_nil_iff]
  · intro h name before now
    rw [changed, changed, Bool.eq_iff_iff.mpr (h name)]

end Watch

namespace Settings

theorem wantsVariable_iff (es : List Document.Entry) (flags : List Flag) (name : Bytes) :
    (CommandLine.layered es flags).watch.wantsVariable name = true ↔
      (filed Given.traceVars es = some true ∨ ascii "vars" ∈ traces flags) ∨
        name ∈ ((filed Given.watched es).getD [] ++ watchedBy flags).map unsigiled := by
  have hdecided := decided_layered es flags
  rw [Watch.wantsVariable_iff, ← hdecided.vars, ← hdecided.watched]
  rfl

theorem watchedBy_append (flags flags' : List Flag) :
    watchedBy (flags ++ flags') = watchedBy flags ++ watchedBy flags' := by
  simp [watchedBy, traces]

/-- A flag that names a variable asks for this variable only. -/
theorem asks_of_trace {v : Bytes} (hexec : v ≠ ascii "exec") (hvars : v ≠ ascii "vars")
    (before behind : List Flag) :
    (ascii "vars" ∈ traces (before ++ .trace v :: behind) ↔
      ascii "vars" ∈ traces (before ++ behind)) ∧
    watchedBy (before ++ .trace v :: behind) =
      watchedBy before ++ unsigiled v :: watchedBy behind := by
  constructor
  · simp [traces, Flag.given, Ne.symm hvars]
  · rw [watchedBy_append, watchedBy_cons]
    simp [watchedBy, traces, Flag.given, hexec, hvars]

/-- A flag adds to what is watched the name that two sigils have been taken off. -/
theorem wantsVariable_flag {v : Bytes} (hexec : v ≠ ascii "exec") (hvars : v ≠ ascii "vars")
    (es : List Document.Entry) (before behind : List Flag) (name : Bytes) :
    (CommandLine.layered es (before ++ .trace v :: behind)).watch.wantsVariable name = true ↔
      (CommandLine.layered es (before ++ behind)).watch.wantsVariable name = true ∨
        name = unsigiled (unsigiled v) := by
  obtain ⟨hall, hwatched⟩ := asks_of_trace hexec hvars before behind
  rw [wantsVariable_iff, wantsVariable_iff, hall, hwatched, watchedBy_append]
  simp only [List.map_append, List.map_cons, List.mem_append, List.mem_cons]
  tauto

/-- A listed name adds to what is watched the name that one sigil has been taken off. -/
theorem wantsVariable_listed {es es' : List Document.Entry} {v : Bytes} {names names' : List Bytes}
    (hnames : (filed Given.watched es).getD [] = names ++ names')
    (hlisted : filed Given.watched es' = some (names ++ v :: names'))
    (hvars : filed Given.traceVars es' = filed Given.traceVars es) (flags : List Flag)
    (name : Bytes) :
    (CommandLine.layered es' flags).watch.wantsVariable name = true ↔
      (CommandLine.layered es flags).watch.wantsVariable name = true ∨ name = unsigiled v := by
  rw [wantsVariable_iff, wantsVariable_iff, hnames, hlisted, hvars, Option.getD_some]
  simp only [List.map_append, List.map_cons, List.mem_append, List.mem_cons]
  tauto

/-- A variable is added alike by either of two names if they are the same or both watched anyway. -/
theorem add_alike_iff {P : Bytes → Prop} {a b : Bytes} :
    (∀ name, P name ∨ name = a ↔ P name ∨ name = b) ↔ a = b ∨ P a ∧ P b := by
  constructor
  · intro h
    by_cases hab : a = b
    · exact Or.inl hab
    · have ha : P a ∨ a = b := (h a).mp (Or.inr rfl)
      have hb : P b ∨ b = a := (h b).mpr (Or.inr rfl)
      exact Or.inr ⟨ha.resolve_right hab, hb.resolve_right (Ne.symm hab)⟩
  · rintro (rfl | ⟨ha, hb⟩) name
    · exact Iff.rfl
    · constructor
      · rintro (h | rfl)
        · exact Or.inl h
        · exact Or.inl ha
      · rintro (h | rfl)
        · exact Or.inl h
        · exact Or.inl hb

end Settings

namespace CommandLine

/-- The settings if nothing is asked for but to trace the variable with this name. -/
def tracing (name : Bytes) : Settings := layered [] [.trace (sigil ++ name)]

theorem sigiled_ne (name : Bytes) :
    sigil ++ name ≠ ascii "exec" ∧ sigil ++ name ≠ ascii "vars" := by
  constructor <;> simp [sigil, ascii]

theorem tracing_watch (name : Bytes) : (tracing name).watch = { names := [unsigiled name] } := by
  obtain ⟨hexec, hvars⟩ := sigiled_ne name
  have htrace : (tracing name).trace = { watched := [name] } := calc
    (tracing name).trace = TraceSettings.add {} (sigil ++ name) := rfl
    _ = { watched := [unsigiled (sigil ++ name)] } := (if_neg hexec).trans (if_neg hvars)
    _ = { watched := [name] } := by rw [unsigiled_append]
  rw [Settings.watch, htrace]
  rfl

/-- Whether `v` is named by a flag or listed in the settings file, the same variables are watched,
unless `v` begins with two sigils: then it stands for different variables, which makes no difference
only if both are watched anyway. A flag that names the variable `n` by its sigil watches `n` and
nothing else, unless `n` itself begins with a sigil; what a run tells are the changes of the
variable that is left of `n` without a sigil. -/
theorem watched_alike_iff {v : Bytes} (hexec : v ≠ ascii "exec") (hvars : v ≠ ascii "vars")
    {es es' : List Document.Entry} {names names' : List Bytes}
    (hnames : (filed Given.watched es).getD [] = names ++ names')
    (hlisted : filed Given.watched es' = some (names ++ v :: names'))
    (hall : filed Given.traceVars es' = filed Given.traceVars es) (before behind : List Flag) :
    let without := (layered es (before ++ behind)).watch
    let flagged := (layered es (before ++ .trace v :: behind)).watch
    let listed := (layered es' (before ++ behind)).watch
    ((∀ n old new, flagged.changed n old new = listed.changed n old new) ↔
      Bytes.startsWith (sigil ++ sigil) v = false ∨
        without.wantsVariable (unsigiled v) = true ∧
          without.wantsVariable (unsigiled (unsigiled v)) = true) ∧
    ∀ n, ((∀ m old new, (tracing n).watch.changed m old new ≠ [] ↔ m = n) ↔
        Bytes.startsWith sigil n = false) ∧
      ∀ dialect p fuel (task : Task) st,
        let ran (w : Watch) : State :=
          (task.outcome { dialect, program := some p, watch := w } fuel st).2
        ∃ events told, (ran { (tracing n).watch with vars := true }).log.toList =
            st.log.toList ++ events ∧
          (ran (tracing n).watch).log.toList = st.log.toList ++ told ∧
          changes told = (changes events).filter fun c => c.name = unsigiled n := by
  intro without flagged listed
  refine ⟨?_, fun n => ⟨?_, ?_⟩⟩
  · simp only [flagged, listed, Watch.changed_eq_iff, Settings.wantsVariable_flag hexec hvars,
      Settings.wantsVariable_listed hnames hlisted hall]
    rw [Settings.add_alike_iff, unsigiled_unsigiled_iff, and_comm]
  · have hwants : ∀ m, (tracing n).watch.wantsVariable m = true ↔ m = unsigiled n := by
      simp [tracing_watch, Watch.wantsVariable_iff]
    simp only [Watch.changed_ne_nil_iff, hwants]
    rw [← unsigiled_eq_self_iff]
    exact ⟨fun h => (h (unsigiled n) none (.text [])).mp rfl, fun h m _ _ => by rw [h]⟩
  · intro dialect p fuel task st ran
    have hnames : (tracing n).watch.names = [unsigiled n] := by rw [tracing_watch]
    have hsifted := @Task.outcome_sifted { (tracing n).watch with vars := true } (tracing n).watch
      rfl (by rw [tracing_watch]) dialect p fuel task st
    obtain ⟨events, told, hevents, htold, hchanges⟩ := hsifted.log
    refine ⟨events, told, hevents, htold, ?_⟩
    simpa only [hnames, List.mem_singleton] using hchanges

/-- The file lists `a` and `$x`, or `a` while a flag names `$x`. -/
theorem watched_alike_iff_sigiled :
    let es := [.dialect (ascii "clarity"), .traceVariables [ascii "a"]]
    let es' := [.dialect (ascii "clarity"), .traceVariables [ascii "a", ascii "$x"]]
    let flagged := (layered es [.trace (ascii "exec"), .trace (ascii "$x")]).watch
    let listed := (layered es' [.trace (ascii "exec")]).watch
    Bytes.startsWith (sigil ++ sigil) (ascii "$x") = false ∧
      flagged.names = [ascii "a", ascii "x"] ∧
      (∀ n old new, flagged.changed n old new = listed.changed n old new) ∧
      ∀ m old new, (tracing (ascii "x")).watch.changed m old new ≠ [] ↔ m = ascii "x" := by
  intro es es' flagged listed
  have hone : Bytes.startsWith (sigil ++ sigil) (ascii "$x") = false := by decide
  have hplain : Bytes.startsWith sigil (ascii "x") = false := by decide
  obtain ⟨halike, htracing⟩ := @watched_alike_iff (ascii "$x") (by decide) (by decide) es es'
    [ascii "a"] [] rfl rfl rfl [.trace (ascii "exec")] []
  exact ⟨hone, by decide, halike.mpr (Or.inl hone), (htracing (ascii "x")).1.mpr hplain⟩

/-- The variable `$x` can be assigned. Listed as `$$x` it is watched, but a flag `$$x` watches `x`
in its place, so that a run which assigns `$x` tells nothing. -/
theorem flag_misses_sigiled_variable :
    let flagged := (tracing (ascii "$x")).watch
    let listed := (layered [.traceVariables [ascii "$$x"]] []).watch
    let five := Value.integer 5
    let ran (w : Watch) : State := ((Task.statement mainSection (ascii "$$x=5")).outcome
      { dialect := .clarity, program := some .empty, watch := w } 0 {}).2
    Nameable (ascii "$x") ∧
      listed.changed (ascii "$x") none five = [.changed (ascii "$x") none (ascii "5")] ∧
      flagged.changed (ascii "$x") none five = [] ∧
      flagged.changed (ascii "x") none five = [.changed (ascii "x") none (ascii "5")] ∧
      changes (ran listed).log.toList = [⟨ascii "$x", none, ascii "5"⟩] ∧
      changes (ran flagged).log.toList = [] ∧
      (ran flagged).vars.find? (ascii "$x") = some five := by
  intro flagged listed five ran
  refine ⟨⟨by decide, by decide, by decide⟩, rfl, rfl, rfl, ?_, ?_, ?_⟩ <;> decide +kernel

end CommandLine

end SectScript
