import SectScript.Dialect.Selection

/-!
# How a file is to be named

The dialect of a file follows from the extension of its name. Forcing a dialect can only refuse a
file, never read it in another dialect. A refusal advises how to rename the file; the advised names
are accepted, and they differ from the name that was refused in the extension alone, whatever the
shape of the path.
-/

namespace SectScript

/-- The parts of a path: the directory up to the last slash, the stem of what follows, and the
extension, which begins at the last dot behind the last slash. -/
structure Path.Parts (path dir stem ext : Bytes) : Prop where
  whole : path = dir ++ (stem ++ ext)
  directory : dir = [] ∨ ∃ above, dir = above ++ [0x2F]
  element : 0x2F ∉ stem ++ ext
  extension : (ext = [] ∧ 0x2E ∉ stem) ∨ ∃ word, ext = 0x2E :: word ∧ 0x2E ∉ word

namespace Path

/-- A byte that occurs has a last occurrence. -/
theorem exists_last {b : UInt8} {s : Bytes} (h : b ∈ s) :
    ∃ front back, s = front ++ b :: back ∧ b ∉ back := by
  obtain ⟨back, front, hs, hback⟩ := List.eq_append_cons_of_mem (List.mem_reverse.mpr h)
  refine ⟨front.reverse, back.reverse, ?_, by simpa using hback⟩
  rw [← List.reverse_reverse s, hs]
  simp

theorem exists_parts (path : Bytes) : ∃ dir stem ext, Parts path dir stem ext := by
  obtain ⟨dir, element, hpath, hdir, helement⟩ : ∃ dir element, path = dir ++ element ∧
      (dir = [] ∨ ∃ above, dir = above ++ [0x2F]) ∧ 0x2F ∉ element := by
    by_cases hslash : 0x2F ∈ path
    · obtain ⟨above, element, hpath, helement⟩ := exists_last hslash
      exact ⟨above ++ [0x2F], element, by simp [hpath], Or.inr ⟨above, rfl⟩, helement⟩
    · exact ⟨[], path, rfl, Or.inl rfl, hslash⟩
  by_cases hdot : 0x2E ∈ element
  · obtain ⟨stem, word, rfl, hword⟩ := exists_last hdot
    exact ⟨dir, stem, 0x2E :: word, hpath, hdir, helement, Or.inr ⟨word, rfl, hword⟩⟩
  · refine ⟨dir, element, [], by simpa using hpath, hdir, by simpa using helement, ?_⟩
    exact Or.inl ⟨rfl, hdot⟩

/-- The search for an extension passes over bytes that are neither slash nor dot. -/
theorem plain_of_not_mem {s : Bytes} (hdot : 0x2E ∉ s) (hslash : 0x2F ∉ s) :
    ∀ b ∈ s.reverse, (b != 0x2E && b != 0x2F) = true := by
  intro b hb
  rw [List.mem_reverse] at hb
  have hb' : b ≠ 0x2E ∧ b ≠ 0x2F :=
    ⟨fun h => hdot (h ▸ hb), fun h => hslash (h ▸ hb)⟩
  simp [hb']

theorem Parts.splitExtension_eq {path dir stem ext : Bytes} (h : Parts path dir stem ext) :
    splitExtension path = (dir ++ stem, ext) := by
  obtain ⟨rfl, hdir, helement, ⟨rfl, hstem⟩ | ⟨word, rfl, hword⟩⟩ := h
  · -- Without a dot the search ends at the slash, or has passed over the whole path.
    have hplain := plain_of_not_mem hstem (by simpa using helement)
    obtain rfl | ⟨above, rfl⟩ := hdir
    · have hnone := @List.dropWhile_append_of_pos _ _ _ [] hplain
      rw [List.append_nil] at hnone
      simp [splitExtension, hnone]
    · simp [splitExtension, List.dropWhile_append_of_pos hplain]
  · have hslash : 0x2F ∉ word := fun hmem => helement (by simp [hmem])
    have hplain := plain_of_not_mem hword hslash
    simp [splitExtension, List.dropWhile_append_of_pos hplain,
      List.takeWhile_append_of_pos hplain]

end Path

namespace Dialect

/-- The extension of the files of a dialect, without its dot. -/
theorem suffix_eq (d : Dialect) : ∃ word, d.suffix = 0x2E :: word ∧ 0x2E ∉ word ∧ 0x2F ∉ word := by
  cases d <;> exact ⟨_, rfl, by decide, by decide⟩

theorem lower_suffix (d : Dialect) : lower d.suffix = d.suffix := by
  cases d <;> decide

/-- What a file may be, if this dialect is forced. -/
def wanted : (forced : Dialect) → List Dialect
  | unset => [clarity, timballo]
  | forced => [forced]

theorem mem_wanted {forced d : Dialect} :
    d ∈ forced.wanted ↔ d ≠ .unset ∧ (forced = .unset ∨ forced = d) := by
  cases forced <;> cases d <;> decide

theorem wanted_of_ne_unset {forced : Dialect} (h : forced ≠ .unset) : forced.wanted = [forced] := by
  cases forced with
  | unset => exact absurd rfl h
  | clarity | timballo => rfl

theorem ofFile_of_ne_unset {forced : Dialect} (h : forced ≠ .unset) (file : Bytes) :
    ofFile file forced =
      if lower (splitExtension file).2 = forced.suffix then .ok forced
      else .error (.invalidExtension file [forced]) := by
  cases forced with
  | unset => exact absurd rfl h
  | clarity | timballo => simp [ofFile]

/-- A file is of the dialect whose extension it has, if that is wanted, and is else refused. -/
theorem ofFile_cases (file : Bytes) (forced : Dialect) :
    (∃ d ∈ forced.wanted, lower (splitExtension file).2 = d.suffix ∧ ofFile file forced = .ok d) ∨
    (∀ d ∈ forced.wanted, lower (splitExtension file).2 ≠ d.suffix) ∧
      ofFile file forced = .error (.invalidExtension file forced.wanted) := by
  by_cases hforced : forced = .unset
  · subst hforced
    by_cases hclarity : lower (splitExtension file).2 = clarity.suffix
    · exact Or.inl ⟨clarity, by decide, hclarity, by simp [ofFile, hclarity]⟩
    · by_cases htimballo : lower (splitExtension file).2 = timballo.suffix
      · refine Or.inl ⟨timballo, by decide, htimballo, ?_⟩
        simp [ofFile, htimballo, show timballo.suffix ≠ clarity.suffix by decide]
      · refine Or.inr ⟨?_, by simp [ofFile, hclarity, htimballo, wanted]⟩
        simp [wanted, hclarity, htimballo]
  · rw [wanted_of_ne_unset hforced, ofFile_of_ne_unset hforced]
    by_cases h : lower (splitExtension file).2 = forced.suffix
    · exact Or.inl ⟨forced, List.mem_singleton_self forced, h, if_pos h⟩
    · exact Or.inr ⟨by simpa using h, if_neg h⟩

/-- No two dialects that can be wanted have the same extension. -/
theorem suffix_injective {d d' : Dialect} (hd : d ≠ .unset) (hd' : d' ≠ .unset)
    (h : d.suffix = d'.suffix) : d = d' := by
  revert hd hd' h
  cases d <;> cases d' <;> decide

theorem ofFile_eq_ok_iff {file : Bytes} {forced d : Dialect} :
    ofFile file forced = .ok d ↔ d ∈ forced.wanted ∧ lower (splitExtension file).2 = d.suffix := by
  rcases ofFile_cases file forced with ⟨d', hmem, hsuffix, hok⟩ | ⟨hnone, herror⟩
  · rw [hok, hsuffix]
    constructor
    · rintro ⟨rfl⟩
      exact ⟨hmem, rfl⟩
    · rintro ⟨hmem', hsame⟩
      rw [suffix_injective (mem_wanted.mp hmem).1 (mem_wanted.mp hmem').1 hsame]
  · rw [herror]
    constructor
    · rintro ⟨⟩
    · rintro ⟨hmem, hsuffix⟩
      exact absurd hsuffix (hnone d hmem)

end Dialect

theorem Cause.renamed_parts {file dir stem ext : Bytes} (h : Path.Parts file dir stem ext)
    (d : Dialect) : Path.Parts (renamed file d) dir stem d.suffix := by
  obtain ⟨word, hsuffix, hdot, hslash⟩ := d.suffix_eq
  refine ⟨?_, h.directory, ?_, Or.inr ⟨word, hsuffix, hdot⟩⟩
  · rw [renamed, h.splitExtension_eq, List.append_assoc]
  · have hstem : 0x2F ∉ stem := fun hmem => h.element (List.mem_append_left _ hmem)
    simp [hsuffix, hstem, hslash]

/-- A renamed file is of the dialect that it was renamed for. -/
theorem Dialect.ofFile_renamed (file : Bytes) {forced d : Dialect} (h : d ∈ forced.wanted) :
    ofFile (Cause.renamed file d) forced = .ok d := by
  obtain ⟨dir, stem, ext, hparts⟩ := Path.exists_parts file
  rw [ofFile_eq_ok_iff, (Cause.renamed_parts hparts d).splitExtension_eq]
  exact ⟨h, d.lower_suffix⟩

example : ["p.Txt", "p", "p.", "a.b/p", "a.b/", ""].map (fun f => Cause.renamed (ascii f) .clarity) =
    ["p.lnh", "p.lnh", "p.lnh", "a.b/p.lnh", "a.b/.lnh", ".lnh"].map ascii := by decide

namespace Dialect

/-- The advice for a file that is wanted in a dialect: what it lacks, and how to rename it. -/
def advice (file : Bytes) (d : Dialect) (target : Bytes) : List Bytes :=
  [ascii "The " ++ d.name ++ ascii " programming language requires files to have a " ++ d.suffix ++
      ascii " extension",
    ascii "Please rename '" ++ file ++ ascii "' to '" ++ target ++ ascii "'"]

/-- A file is read in a dialect that is forced exactly if it is read in this dialect without force.
If it is refused, the hints advise for each dialect that is wanted a name under which the file is
read in it, with and without force, and which keeps the directory and the stem. -/
theorem selection_coherent (file : Bytes) (forced : Dialect) :
    (∀ d, ofFile file forced = .ok d ↔
      ofFile file .unset = .ok d ∧ (forced = .unset ∨ forced = d)) ∧
    ∀ c, ofFile file forced = .error c →
      ∃ (wanted : List Dialect) (target : Dialect → Bytes), wanted ≠ [] ∧
        c.hints = wanted.flatMap (fun d => advice file d (target d)) ∧
        ∀ d ∈ wanted, ofFile (target d) forced = .ok d ∧ ofFile (target d) .unset = .ok d ∧
          ∃ dir stem ext, Path.Parts file dir stem ext ∧
            Path.Parts (target d) dir stem d.suffix := by
  have hfree : ∀ {d}, d ∈ forced.wanted → d ∈ wanted .unset := fun h =>
    mem_wanted.mpr ⟨(mem_wanted.mp h).1, Or.inl rfl⟩
  constructor
  · intro d
    simp only [ofFile_eq_ok_iff, mem_wanted, true_or, and_true]
    rw [and_right_comm]
  · intro c hc
    rcases ofFile_cases file forced with ⟨d, _, _, hok⟩ | ⟨_, herror⟩
    · cases hok.symm.trans hc
    · obtain rfl := Except.error.inj (herror.symm.trans hc)
      refine ⟨forced.wanted, Cause.renamed file, ?_, rfl, ?_⟩
      · cases forced <;> simp [wanted]
      · intro d hd
        obtain ⟨dir, stem, ext, hparts⟩ := Path.exists_parts file
        exact ⟨ofFile_renamed file hd, ofFile_renamed file (hfree hd), dir, stem, ext, hparts,
          Cause.renamed_parts hparts d⟩

/-- The extension of a directory is none of a file in it, and a dot alone is an extension. -/
theorem selection_coherent_dotted :
    let file := ascii "old.tim/prog."
    let c := Cause.invalidExtension file [timballo]
    ofFile file .timballo = .error c ∧
      ∃ (wanted : List Dialect) (target : Dialect → Bytes), wanted ≠ [] ∧
        c.hints = wanted.flatMap (fun d => advice file d (target d)) ∧
        ∀ d ∈ wanted, ofFile (target d) .timballo = .ok d ∧ ofFile (target d) .unset = .ok d ∧
          ∃ dir stem ext, Path.Parts file dir stem ext ∧
            Path.Parts (target d) dir stem d.suffix := by
  intro file c
  have hrefused : ofFile file .timballo = .error c := rfl
  exact ⟨hrefused, (selection_coherent file .timballo).2 c hrefused⟩

end Dialect

end SectScript
