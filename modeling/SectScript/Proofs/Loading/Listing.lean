import SectScript.Proofs.Loading.Block
import SectScript.Proofs.Loading.Visit
import SectScript.Proofs.Table.Order
import SectScript.Proofs.Text.Decimal
import SectScript.Proofs.Text.Search

/-!
# Loading a listing

The listing of a loaded program is itself a source. Each of its lines is what it looks like: names
and statements are trimmed texts of one line, and a statement stands behind its number, so whatever
its bytes are it cannot be taken for the beginning or the end of a section. Loading the listing
therefore gives the sections again, with the numbers as part of the statements. So the listing
determines names, statements and their line numbers.
-/

namespace SectScript

theorem Bytes.isSolid_of_isDigit {d : UInt8} (h : Decimal.isDigit d = true) :
    isSolid d = true := by
  have hbyte : 0x30 ≤ d.toNat ∧ d.toNat ≤ 0x39 := by
    simpa [Decimal.isDigit, UInt8.le_iff_toNat_le] using h
  have hrange : d.toNat < 0x80 ∧ (d.toNat < 9 ∨ 13 < d.toNat) ∧ ¬ d.toNat = 32 := by omega
  simpa [isSolid, isBlank₁, UInt8.lt_iff_toNat_lt, UInt8.le_iff_toNat_le, ← UInt8.toNat_inj]
    using hrange

/-- A text that fills a line: it is trimmed, not empty, and has no line feed. -/
structure Bytes.OneLine (s : Bytes) : Prop where
  ne_nil : s ≠ []
  trimmed : Bytes.trim s = s
  unbroken : 0x0A ∉ s

/-- What stands in front of a text, with a space between, keeps it on its line. -/
theorem Bytes.OneLine.behind {s : Bytes} (h : s.OneLine) {front : Bytes}
    (hfront : trimLeft front = front) (hne : front ≠ []) (hbreak : 0x0A ∉ front) :
    (front ++ 0x20 :: s).OneLine := by
  have hright := ((trim_eq_self_iff s).mp h.trimmed).2
  exact ⟨by simp, trim_append_space_cons hfront hne hright h.ne_nil, by simp [hbreak, h.unbroken]⟩

/-- A statement line as a source can hold it. -/
structure SourceLine.Listable (l : SourceLine) : Prop where
  number : 0 ≤ l.number
  text : l.text.OneLine

theorem SourceLine.Listable.digits {l : SourceLine} (h : l.Listable) :
    Decimal.isDigits (Decimal.ofInt l.number) = true := by
  rw [Decimal.isDigits_ofInt]
  exact decide_eq_true h.number

/-- The names and the statements of all sections fill lines. -/
structure Program.Listable (p : Program) : Prop where
  names : ∀ e ∈ p.entries, e.1.OneLine
  lines : ∀ e ∈ p.entries, ∀ l ∈ e.2.body, l.Listable

namespace Loading

/-! ## Loaded programs -/

/-- The complete sections and the one that is being read are listable. -/
structure Progress.Listable (p : Progress) : Prop where
  pending : ∀ s, p.pending = some s → s.name.OneLine ∧ ∀ l ∈ s.body, l.Listable
  program : p.program.Listable

theorem sourceLines_listable {source : Bytes} {l : SourceLine} (hl : l ∈ sourceLines source) :
    l.Listable := by
  have h := mem_sourceLines hl
  exact ⟨Int.le_trans (by decide) h.1, h.2.2, trim_of_lineOf h, lineOf_flat h⟩

theorem oneLine_of_opening {l : SourceLine} (hl : l.Listable) {name : Bytes}
    (hmark : l.mark = .opening name) (hname : name ≠ []) : name.OneLine := by
  obtain ⟨rest, htext, _, rfl⟩ := SourceLine.mark_eq_opening_iff.mp hmark
  refine ⟨hname, Bytes.trim_trim rest, ?_⟩
  intro hmem
  apply hl.text.unbroken
  rw [htext]
  exact List.mem_append_right _ (Bytes.trim_subset rest hmem)

theorem Progress.Listable.commit {p : Progress} (h : p.Listable) {s : Pending}
    (hs : p.pending = some s) :
    Program.Listable (p.program.insert s.name ⟨s.lineNo, s.body⟩) := by
  obtain ⟨hname, hbody⟩ := h.pending s hs
  refine ⟨?_, ?_⟩
  · intro e he
    rcases Table.mem_insert he with rfl | he
    · exact hname
    · exact h.program.names e he
  · intro e he
    rcases Table.mem_insert he with rfl | he
    · exact hbody
    · exact h.program.lines e he

/-- A line of a source keeps the progress listable. -/
theorem line_listable {setup : Setup} {l : SourceLine} (hl : l.Listable) {p q : Progress}
    (hp : p.Listable) {st st' : State} (h : line setup l p st = (.ok q, st')) : q.Listable := by
  rw [line_eq] at h
  cases hmark : l.mark with
  | opening name =>
    rw [hmark] at h
    dsimp only at h
    split at h
    case isTrue => cases h
    case isFalse hname =>
      cases h
      refine ⟨?_, hp.program⟩
      intro s hs
      cases hs
      exact ⟨oneLine_of_opening hl hmark hname, by simp⟩
  | closing =>
    rw [hmark] at h
    cases hpending : p.pending with
    | none =>
      rw [hpending] at h
      cases h
    | some s =>
      rw [hpending] at h
      cases h
      exact ⟨by simp, hp.commit hpending⟩
  | code =>
    rw [hmark] at h
    cases hpending : p.pending with
    | none =>
      rw [hpending] at h
      dsimp only at h
      split at h
      · split at h
        · cases h
          exact hp
        · cases h
      · cases h
    | some s =>
      rw [hpending] at h
      cases h
      refine ⟨?_, hp.program⟩
      intro t ht
      cases ht
      obtain ⟨hname, hbody⟩ := hp.pending s hpending
      refine ⟨hname, ?_⟩
      intro x hx
      rcases List.mem_append.mp hx with hx | hx
      · exact hbody x hx
      · rwa [List.mem_singleton.mp hx]

theorem scan_listable {setup : Setup} {ls : List SourceLine} (hls : ∀ l ∈ ls, l.Listable)
    {p q : Progress} (hp : p.Listable) {st st' : State} (h : scan setup ls p st = (.ok q, st')) :
    q.Listable := by
  induction ls generalizing p st with
  | nil =>
    cases h
    exact hp
  | cons l ls ih =>
    obtain ⟨hl, hls⟩ := List.forall_mem_cons.mp hls
    rw [scan] at h
    rcases hline : line setup l p st with ⟨f | next, after⟩ <;> rw [hline] at h
    · cases h
    · exact ih hls (line_listable hl hp hline) h

section Loaded

variable {setup : Setup} {source : Bytes} {st : State} {p : Program}
  (h : (load setup source st).1 = .ok p)
include h

theorem load_listable : p.Listable := by
  have hempty : ({} : Progress).Listable := by
    refine ⟨?_, ?_, ?_⟩
    · intro s hs
      cases hs
    · intro e he
      cases he
    · intro e he
      cases he
  rw [load_eq_scan] at h
  rcases hscan : scan setup (sourceLines source) {} st with ⟨f | q, after⟩ <;> rw [hscan] at h
  · cases h
  · have hq := (scan_listable (fun _ => sourceLines_listable) hempty hscan).program
    dsimp only [finish] at h
    split at h
    · cases h
    · split at h
      · cases h
        exact hq
      · cases h

theorem load_entries : ∀ name ∈ setup.dialect.entrySections, p.Defines name := by
  intro name hname
  rcases load_spec setup source st with ⟨q, _, hq, hreflects, _, complete⟩ | ⟨f, _, hq, _⟩ <;>
    rw [hq] at h
  · cases h
    obtain ⟨s, hs⟩ := hreflects.entries_found complete name hname
    rw [Table.Defines, hs]
    rfl
  · cases h

/-- Every dialect asks for the sections that the unset one asks for. -/
theorem load_main : ∀ name ∈ Dialect.unset.entrySections, p.Defines name := by
  intro name hname
  have hmain : ∀ d : Dialect, mainSection ∈ d.entrySections := by
    intro d
    cases d <;> decide
  rw [List.mem_singleton.mp hname]
  exact load_entries h mainSection (hmain setup.dialect)

end Loaded

/-! ## The lines of a listing -/

/-- The number of a statement in decimal, two spaces and the statement. -/
def relisted (l : SourceLine) : Bytes := Decimal.ofInt l.number ++ ascii "  " ++ l.text

/-- The statement line that a line of a listing shows. -/
def unlisted? (s : Bytes) : Option SourceLine :=
  (Bytes.cut (ascii "  ") s).bind fun parts =>
    (Decimal.readInt? parts.1).map fun number => ⟨number, parts.2⟩

section Statement

variable {l : SourceLine} (h : l.Listable)
include h

theorem unlisted?_relisted : unlisted? (relisted l) = some l := by
  have hspace : 0x20 ∉ Decimal.ofInt l.number := Decimal.not_mem_of_isDigits h.digits (by decide)
  have hcut : Bytes.cut (ascii "  ") (relisted l) = some (Decimal.ofInt l.number, l.text) := by
    rw [relisted, List.append_assoc]
    exact Bytes.cut_append hspace l.text
  simp [unlisted?, hcut, Decimal.readInt?_ofInt]

theorem relisted_eq_cons : ∃ d s, relisted l = d :: s ∧ Decimal.isDigit d = true := by
  obtain ⟨d, ds, hnumber, hd⟩ := Decimal.eq_cons_of_isDigits h.digits
  exact ⟨d, ds ++ ascii "  " ++ l.text, by rw [relisted, hnumber]; rfl, hd⟩

theorem relisted_oneLine : (relisted l).OneLine := by
  obtain ⟨d, ds, hnumber, hd⟩ := Decimal.eq_cons_of_isDigits h.digits
  have hbreak : 0x0A ∉ Decimal.ofInt l.number := Decimal.not_mem_of_isDigits h.digits (by decide)
  have hfront : Bytes.trimLeft (Decimal.ofInt l.number ++ [0x20]) =
      Decimal.ofInt l.number ++ [0x20] := by
    rw [hnumber]
    exact Bytes.trimLeft_cons_of_solid (Bytes.isSolid_of_isDigit hd) _
  have heq : relisted l = Decimal.ofInt l.number ++ [0x20] ++ 0x20 :: l.text := by
    simp [relisted, ascii]
  rw [heq]
  exact h.text.behind hfront (by simp) (by simpa using hbreak)

/-- A statement behind its number neither opens nor closes a section. -/
theorem mark_relisted : SourceLine.mark ⟨0, relisted l⟩ = .code := by
  obtain ⟨d, s, hs, hd⟩ := relisted_eq_cons h
  cases hmark : SourceLine.mark ⟨0, relisted l⟩ with
  | code => rfl
  | opening name =>
    obtain ⟨rest, htext, _⟩ := SourceLine.mark_eq_opening_iff.mp hmark
    obtain ⟨rfl, _⟩ := List.cons.inj (hs.symm.trans htext)
    exact absurd hd (by decide)
  | closing =>
    have htext := SourceLine.mark_eq_closing_iff.mp hmark
    obtain ⟨rfl, _⟩ := List.cons.inj (hs.symm.trans htext)
    exact absurd hd (by decide)

theorem not_isAssignment_relisted : ¬ isAssignment (relisted l) = true := by
  obtain ⟨d, s, hs, hd⟩ := relisted_eq_cons h
  rw [isAssignment, Bool.and_eq_true, Bytes.startsWith_iff]
  rintro ⟨⟨rest, htext⟩, _⟩
  obtain ⟨rfl, _⟩ := List.cons.inj (hs.symm.trans htext)
  exact absurd hd (by decide)

end Statement

/-- The line of the listing that opens a section. -/
def openerOf (name : Bytes) : Bytes := sectWord ++ ascii " " ++ name

section Opener

variable {name : Bytes} (h : name.OneLine)
include h

theorem openerOf_oneLine : (openerOf name).OneLine := by
  have heq : openerOf name = sectWord ++ 0x20 :: name := by simp [openerOf, ascii]
  rw [heq]
  exact h.behind (by decide) (by decide) (by decide)

theorem mark_openerOf : SourceLine.mark ⟨0, openerOf name⟩ = .opening name := by
  refine SourceLine.mark_eq_opening_iff.mpr ⟨0x20 :: name, rfl, ?_, ?_⟩
  · intro b hb
    cases hb
    decide
  · rw [Bytes.trim_space_cons, h.trimmed]

end Opener

theorem closer_oneLine : closer.OneLine := ⟨by decide, by decide, by decide⟩

/-! ## The blocks of a listing -/

/-- A text in lines has the lines that its parts have. -/
theorem sourceTexts_flatten (rows : List Bytes) :
    sourceTexts (rows.map (· ++ Bytes.newline)).flatten = rows.flatMap sourceTexts := by
  induction rows with
  | nil => decide
  | cons row rows ih =>
    rw [List.map_cons, List.flatten_cons, sourceTexts_append, ih, List.flatMap_cons]

/-- Spaces in front of a line are not part of it. -/
theorem sourceTexts_of_oneLine {s : Bytes} (h : s.OneLine) (n : Nat) :
    sourceTexts (List.replicate n 0x20 ++ s) = [s] := by
  have hgap : Bytes.Gap (List.replicate n 0x20) := by
    intro b hb
    rw [List.eq_of_mem_replicate hb]
    decide
  have hline : 0x0A ∉ List.replicate n 0x20 ++ s := by
    simp [List.mem_replicate, h.unbroken]
  rw [sourceTexts, sourceLines, numbered_texts, Bytes.pieces_of_not_mem hline]
  simp [Bytes.trim_gap_append hgap, h.trimmed, h.ne_nil]

/-- The lines of the listing of a section. -/
def listRows (e : Bytes × Section) : List Bytes :=
  openerOf e.1 :: (e.2.body.map (fun l =>
    List.replicate (5 - (Decimal.ofInt l.number).length) 0x20 ++ relisted l) ++ [closer])

theorem listSection_eq (e : Bytes × Section) :
    Program.listSection e.1 e.2 = (listRows e).map (· ++ Bytes.newline) := by
  have hline : ∀ l : SourceLine, Program.listLine l =
      List.replicate (5 - (Decimal.ofInt l.number).length) 0x20 ++ relisted l ++ Bytes.newline := by
    intro l
    simp only [Program.listLine, Bytes.padLeft, relisted, List.append_assoc]
  simp [Program.listSection, listRows, hline, openerOf]

theorem list_eq (p : Program) :
    Program.list p = (p.entries.flatMap listRows).map (· ++ Bytes.newline) := by
  simp only [Program.list, listSection_eq, List.map_flatMap]

theorem sourceTexts_listRows {e : Bytes × Section} (hname : e.1.OneLine)
    (hbody : ∀ l ∈ e.2.body, l.Listable) :
    (listRows e).flatMap sourceTexts = openerOf e.1 :: (e.2.body.map relisted ++ [closer]) := by
  have hopener : sourceTexts (openerOf e.1) = [openerOf e.1] :=
    sourceTexts_of_oneLine (openerOf_oneLine hname) 0
  have hcloser : sourceTexts closer = [closer] := sourceTexts_of_oneLine closer_oneLine 0
  rw [listRows, List.flatMap_cons, List.flatMap_append, List.flatMap_singleton, List.flatMap_map,
    hopener, hcloser]
  have hlines : (e.2.body.flatMap fun l => sourceTexts
      (List.replicate (5 - (Decimal.ofInt l.number).length) 0x20 ++ relisted l)) =
      e.2.body.map relisted := by
    rw [List.map_eq_flatMap]
    apply List.flatMap_congr
    intro l hl
    exact sourceTexts_of_oneLine (relisted_oneLine (hbody l hl)) _
  rw [hlines]
  rfl

/-- The block that the listing of a section is. -/
def listedBlock (e : Bytes × Section) (hname : e.1.OneLine) (hbody : ∀ l ∈ e.2.body, l.Listable) :
    Block where
  text := (Program.listSection e.1 e.2).flatten
  opener := openerOf e.1
  name := e.1
  body := e.2.body.map relisted
  lines := by rw [listSection_eq, sourceTexts_flatten, sourceTexts_listRows hname hbody]
  opens := mark_openerOf hname
  code := by
    intro t ht
    obtain ⟨l, hl, rfl⟩ := List.mem_map.mp ht
    exact mark_relisted (hbody l hl)

section Listing

variable {p : Program} (h : p.Listable)
include h

def listedBlocks : List Block :=
  p.entries.attach.map fun e => listedBlock e.1 (h.names e.1 e.2) (h.lines e.1 e.2)

theorem listedBlocks_names : (listedBlocks h).map (·.name) = p.names := by
  rw [listedBlocks, List.map_map]
  exact List.attach_map_val (f := Prod.fst) ..

theorem sourceTexts_list : sourceTexts (Program.list p).flatten =
    (listedBlocks h).flatMap fun b => b.opener :: (b.body ++ [closer]) := by
  have hrows : p.entries.flatMap (fun e => (listRows e).flatMap sourceTexts) =
      p.entries.flatMap fun e => openerOf e.1 :: (e.2.body.map relisted ++ [closer]) :=
    List.flatMap_congr fun e he => sourceTexts_listRows (h.names e he) (h.lines e he)
  rw [list_eq, sourceTexts_flatten, List.flatMap_assoc, hrows, listedBlocks, List.flatMap_map]
  conv_lhs => rw [← List.attach_map_subtype_val p.entries, List.flatMap_map]
  rfl

theorem load_listing {setup : Setup}
    (hentries : ∀ name ∈ setup.dialect.entrySections, p.Defines name) (st : State) :
    ∃ q, load setup (Program.list p).flatten st = (.ok q, st) ∧ q.names = p.names ∧
      ∀ name, (q.find? name).map Section.texts = (p.find? name).map (·.body.map relisted) := by
  have hnodup : ((listedBlocks h).map (·.name)).Nodup := by
    rw [listedBlocks_names h]
    exact p.names_nodup
  have hnames : ∀ name, (∃ b ∈ listedBlocks h, b.name = name) ↔ p.Defines name := by
    intro name
    rw [← Table.mem_names_iff, ← listedBlocks_names h, List.mem_map]
  have hready : Block.Ready setup.dialect (listedBlocks h) := by
    refine ⟨?_, fun name hname => (hnames name).mpr (hentries name hname)⟩
    intro b hb
    obtain ⟨e, _, rfl⟩ := List.mem_map.mp hb
    exact (h.names e.1 e.2).ne_nil
  rcases load_blocks setup hnodup (sourceTexts_list h) st with ⟨q, hload, hfiled, _⟩ | ⟨f, _, hno⟩
  · have hdefines : ∀ name, q.Defines name ↔ p.Defines name :=
      fun name => (hfiled.defines_iff name).trans (hnames name)
    refine ⟨q, hload, Table.names_eq hdefines, ?_⟩
    intro name
    cases hfind : p.find? name with
    | none =>
      have hundefined : ¬ p.Defines name := by simp [Table.Defines, hfind]
      have habsent := hfiled.absent name fun b hb heq => hundefined ((hnames name).mp ⟨b, hb, heq⟩)
      rw [habsent]
      rfl
    | some s =>
      have hmem := Table.mem_entries_of_find? hfind
      have hblock : listedBlock (name, s) (h.names _ hmem) (h.lines _ hmem) ∈ listedBlocks h :=
        List.mem_map.mpr ⟨⟨(name, s), hmem⟩, List.mem_attach _ _, rfl⟩
      exact hfiled.found _ hblock
  · exact absurd hready hno

/-- No line of the listing is executed when it is loaded. -/
theorem visits_listing (setup : Setup) (st : State) :
    visits setup (Program.list p).flatten st = [] := by
  rw [List.eq_nil_iff_forall_not_mem]
  intro v hv
  obtain ⟨_, hline, hassign, _⟩ := mem_scanVisits hv
  have htext : v.line.text ∈ sourceTexts (Program.list p).flatten := List.mem_map_of_mem hline
  rw [sourceTexts_list h] at htext
  obtain ⟨b, hb, htext⟩ := List.mem_flatMap.mp htext
  obtain ⟨e, _, rfl⟩ := List.mem_map.mp hb
  rcases List.mem_cons.mp htext with htext | htext
  · rw [htext] at hassign
    cases hassign
  rcases List.mem_append.mp htext with htext | htext
  · obtain ⟨l, hl, htext⟩ := List.mem_map.mp htext
    rw [← htext] at hassign
    exact not_isAssignment_relisted (h.lines e.1 e.2 l hl) hassign
  · rw [List.mem_singleton.mp htext] at hassign
    cases hassign

/-- The statements of a section are had back from their lines in the listing. -/
theorem body_of_relisted (name : Bytes) : (p.find? name).map Section.body =
    ((p.find? name).map (·.body.map relisted)).map (·.filterMap unlisted?) := by
  cases hfind : p.find? name with
  | none => rfl
  | some s =>
    have hlines := h.lines _ (Table.mem_entries_of_find? hfind)
    have hbody : (s.body.map relisted).filterMap unlisted? = s.body := by
      rw [List.filterMap_map]
      refine (List.filterMap_congr ?_).trans List.filterMap_some
      exact fun l hl => unlisted?_relisted (hlines l hl)
    exact congrArg some hbody.symm

end Listing

/-- The listing of a loaded program loads in the same dialect, and nothing is executed. It gives the
same sections in the same order, with each statement behind its number and two spaces. So programs
that were loaded, in whatever dialects, and have the same listing have the same sections with the
same statements and line numbers. -/
theorem listing_determines (setup : Setup) (source : Bytes) (st : State) (p : Program)
    (hp : (load setup source st).1 = .ok p) :
    (∀ setup' : Setup, setup'.dialect = setup.dialect → ∀ st' : State,
      visits setup' (Program.list p).flatten st' = [] ∧
      ∃ q, load setup' (Program.list p).flatten st' = (.ok q, st') ∧ q.names = p.names ∧
        ∀ name, (q.find? name).map Section.texts = (p.find? name).map (·.body.map relisted)) ∧
    ∀ (setup' : Setup) (source' : Bytes) (st' : State) (p' : Program),
      (load setup' source' st').1 = .ok p' →
      (Program.list p').flatten = (Program.list p).flatten →
      p'.names = p.names ∧
        ∀ name, (p'.find? name).map Section.body = (p.find? name).map Section.body := by
  have hlist := load_listable hp
  constructor
  · intro setup' hdialect st'
    refine ⟨visits_listing hlist setup' st', load_listing hlist ?_ st'⟩
    rw [hdialect]
    exact load_entries hp
  · intro setup' source' st' p' hp' hsame
    have hlist' := load_listable hp'
    -- The dialects may differ, so the listing is loaded in one that asks for `main` alone.
    obtain ⟨q, hq, hnames, htexts⟩ := @load_listing p hlist { dialect := .unset } (load_main hp) {}
    obtain ⟨q', hq', hnames', htexts'⟩ :=
      @load_listing p' hlist' { dialect := .unset } (load_main hp') {}
    rw [hsame, hq] at hq'
    obtain rfl : q = q' := by simpa using hq'
    refine ⟨hnames'.symm.trans hnames, ?_⟩
    intro name
    rw [body_of_relisted hlist, body_of_relisted hlist', ← htexts, ← htexts']

/-- Texts that begin and end in stray bytes, and words that could open or close a section. -/
def cramped : Bytes :=
  ascii "$x = 1\nsect main\n;;\n  sections ;\n;\nsect " ++ [0xA0, 0xC2] ++ ascii "\n " ++
    [0x80, 0x20, 0xE2, 0x80] ++ ascii "\n;\nsect data\n;"

/-- The same sections without the assignment in front. -/
def spacious : Bytes :=
  ascii "\n sect  main\n;; \n\tsections ;\n ;\nsect  " ++ [0xA0, 0xC2] ++ ascii "\n" ++
    [0x80, 0x20, 0xE2, 0x80] ++ ascii " \n;\nsect data\n;"

theorem listing_determines_cramped :
    let clarity : Setup := { dialect := .clarity }
    let timballo : Setup := { dialect := .timballo }
    ∃ p p' q, (load clarity cramped {}).1 = .ok p ∧ (load timballo spacious {}).1 = .ok p' ∧
      load clarity (Program.list p).flatten {} = (.ok q, {}) ∧
      (q.find? mainSection).map Section.texts = some [ascii "3  ;;", ascii "4  sections ;"] ∧
      (q.find? [0xA0, 0xC2]).map Section.texts =
        some [ascii "7  " ++ [0x80, 0x20, 0xE2, 0x80]] ∧
      (Program.list p').flatten = (Program.list p).flatten ∧ p'.names = p.names ∧
      ∀ name, (p'.find? name).map Section.body = (p.find? name).map Section.body := by
  intro clarity timballo
  have hmain : ((load clarity cramped {}).1.toOption.bind (Table.find? · mainSection)).map
      (·.body.map relisted) = some [ascii "3  ;;", ascii "4  sections ;"] := by decide +kernel
  have hstray : ((load clarity cramped {}).1.toOption.bind (Table.find? · [0xA0, 0xC2])).map
      (·.body.map relisted) = some [ascii "7  " ++ [0x80, 0x20, 0xE2, 0x80]] := by decide +kernel
  have hsame : (load timballo spacious {}).1.toOption.map (fun p => (Program.list p).flatten) =
      (load clarity cramped {}).1.toOption.map (fun p => (Program.list p).flatten) := by
    decide +kernel
  rcases hload : (load clarity cramped {}).1 with f | p <;> rw [hload] at hmain hstray hsame
  · cases hmain
  rcases hload' : (load timballo spacious {}).1 with f | p' <;> rw [hload'] at hsame
  · cases hsame
  obtain ⟨hlisted, hunique⟩ := listing_determines clarity cramped {} p hload
  obtain ⟨_, q, hq, _, htexts⟩ := hlisted clarity rfl {}
  have hlisting := Option.some.inj hsame
  obtain ⟨hnames, hbodies⟩ := hunique timballo spacious {} p' hload' hlisting
  refine ⟨p, p', q, rfl, rfl, hq, ?_, ?_, hlisting, hnames, hbodies⟩
  · exact (htexts mainSection).trans hmain
  · exact (htexts [0xA0, 0xC2]).trans hstray

end Loading

end SectScript
