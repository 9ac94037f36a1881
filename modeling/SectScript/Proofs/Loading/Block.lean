import SectScript.Proofs.Loading.Location
import SectScript.Proofs.Machine.Layout

/-!
# The order of sections in a source

A source may be a sequence of blocks, each of which opens a section and closes it. Loading such a
source executes nothing: it succeeds if all blocks are named and the entry sections are among them,
and files each block under its name. If the names differ, this does not depend on the order of the
blocks; only the numbers of the lines do, and a run does not see those.
-/

namespace SectScript

theorem SourceLine.mark_congr {l l' : SourceLine} (h : l.text = l'.text) : l.mark = l'.mark := by
  rw [mark, mark, h]

namespace Loading

/-! ## Blocks -/

/-- The lines of a source that are not blank, trimmed. -/
def sourceTexts (source : Bytes) : List Bytes := (sourceLines source).map (·.text)

theorem numbered_texts (n : Nat) (raws : List Bytes) :
    (numbered n raws).map (·.text) = (raws.map Bytes.trim).filter (· ≠ []) := by
  induction raws generalizing n with
  | nil => rfl
  | cons raw raws ih =>
    rw [numbered, List.zipIdx_cons, List.filterMap_cons, ← numbered]
    by_cases hblank : Bytes.trim raw = []
    · simp [hblank, ih]
    · simp [hblank, ih]

theorem sourceTexts_append (s t : Bytes) :
    sourceTexts (s ++ Bytes.newline ++ t) = sourceTexts s ++ sourceTexts t := by
  simp only [sourceTexts, sourceLines, numbered_texts, Bytes.newline, List.append_assoc,
    List.singleton_append, Bytes.pieces_append, List.map_append, List.filter_append]

theorem sourceTexts_join (raws : List Bytes) :
    sourceTexts (Bytes.join Bytes.newline raws) = raws.flatMap sourceTexts := by
  fun_induction Bytes.join Bytes.newline raws with
  | case1 => decide
  | case2 raw => simp
  | case3 raw raws _ ih => rw [sourceTexts_append, ih, List.flatMap_cons]

/-- A part of a source that opens a section, holds its code and closes it. -/
structure Block where
  text : Bytes
  opener : Bytes
  name : Bytes
  body : List Bytes
  lines : sourceTexts text = opener :: (body ++ [closer])
  opens : SourceLine.mark ⟨0, opener⟩ = .opening name
  code : ∀ t ∈ body, SourceLine.mark ⟨0, t⟩ = .code

/-- The source that consists of the blocks. -/
def Block.source (blocks : List Block) : Bytes :=
  Bytes.join Bytes.newline (blocks.map (·.text))

/-- The blocks are the sections of the program. -/
structure Block.Filed (blocks : List Block) (p : Program) : Prop where
  found : ∀ b ∈ blocks, (p.find? b.name).map Section.texts = some b.body
  absent : ∀ name, (∀ b ∈ blocks, b.name ≠ name) → p.find? name = none

/-- All blocks are named, and the entry sections are among them. -/
def Block.Ready (d : Dialect) (blocks : List Block) : Prop :=
  (∀ b ∈ blocks, b.name ≠ []) ∧ ∀ name ∈ d.entrySections, ∃ b ∈ blocks, b.name = name

theorem Block.Filed.defines_iff {blocks : List Block} {p : Program} (h : Block.Filed blocks p)
    (name : Bytes) : (p.find? name).isSome = true ↔ ∃ b ∈ blocks, b.name = name := by
  constructor
  · intro hsome
    by_contra hnone
    rw [h.absent name fun b hb heq => hnone ⟨b, hb, heq⟩] at hsome
    cases hsome
  · rintro ⟨b, hb, rfl⟩
    have hbody := congrArg Option.isSome (h.found b hb)
    simpa using hbody

theorem Block.Filed.sameTexts {blocks blocks' : List Block} (hperm : blocks.Perm blocks')
    {p p' : Program} (h : Block.Filed blocks p) (h' : Block.Filed blocks' p') :
    p.SameTexts p' := by
  intro name
  by_cases hname : ∃ b ∈ blocks, b.name = name
  · obtain ⟨b, hb, rfl⟩ := hname
    rw [h.found b hb, h'.found b (hperm.mem_iff.mp hb)]
  · have hnone : ∀ b ∈ blocks, b.name ≠ name := fun b hb heq => hname ⟨b, hb, heq⟩
    have hnone' : ∀ b ∈ blocks', b.name ≠ name := fun b hb => hnone b (hperm.mem_iff.mpr hb)
    rw [h.absent name hnone, h'.absent name hnone']

theorem Block.ready_perm {d : Dialect} {blocks blocks' : List Block} (hperm : blocks.Perm blocks') :
    Block.Ready d blocks ↔ Block.Ready d blocks' := by
  simp only [Block.Ready, hperm.mem_iff]

/-- The source lines of a block: they open, hold code and close. -/
theorem Block.split_lines {b : Block} {blocks : List Block} {ls : List SourceLine}
    (h : ls.map (·.text) = (b :: blocks).flatMap fun b => b.opener :: (b.body ++ [closer])) :
    ∃ o body c rest, ls = (o :: (body ++ [c])) ++ rest ∧ o.mark = .opening b.name ∧
      body.map (·.text) = b.body ∧ (∀ l ∈ body, l.mark = .code) ∧ c.mark = .closing ∧
      rest.map (·.text) = blocks.flatMap fun b => b.opener :: (b.body ++ [closer]) := by
  rw [List.flatMap_cons] at h
  obtain ⟨first, rest, rfl, hfirst, hrest⟩ := List.map_eq_append_iff.mp h
  obtain ⟨o, inner, rfl, ho, hinner⟩ := List.map_eq_cons_iff.mp hfirst
  obtain ⟨body, last, rfl, hbody, hlast⟩ := List.map_eq_append_iff.mp hinner
  obtain ⟨c, rfl, hc⟩ := List.map_eq_singleton_iff.mp hlast
  refine ⟨o, body, c, rest, rfl, ?_, hbody, ?_, SourceLine.mark_eq_closing_iff.mpr hc, hrest⟩
  · exact (SourceLine.mark_congr ho).trans b.opens
  · intro l hl
    have htext : l.text ∈ b.body := hbody ▸ List.mem_map_of_mem hl
    exact (SourceLine.mark_congr rfl).trans (b.code l.text htext)

/-! ## Scanning blocks -/

section Scan

variable (setup : Setup)

theorem scan_append (ls ls' : List SourceLine) (p : Progress) (st : State) :
    scan setup (ls ++ ls') p st = Machine.andThen (scan setup ls p st) (scan setup ls') := by
  induction ls generalizing p st with
  | nil => rfl
  | cons l ls ih =>
    rw [List.cons_append, scan, scan]
    rcases line setup l p st with ⟨f | p', st'⟩
    · rfl
    · exact ih p' st'

theorem scan_code {ls : List SourceLine} (hls : ∀ l ∈ ls, l.mark = .code) (s : Pending)
    (p : Program) (st : State) :
    scan setup ls ⟨some s, p⟩ st = (.ok ⟨some { s with body := s.body ++ ls }, p⟩, st) := by
  induction ls generalizing s with
  | nil => simp [scan]
  | cons l ls ih =>
    have hrest := ih (fun x hx => hls x (List.mem_cons_of_mem _ hx))
      { s with body := s.body ++ [l] }
    rw [scan, line_eq, hls l List.mem_cons_self]
    simpa using hrest

theorem scan_block {o c : SourceLine} {body : List SourceLine} {name : Bytes}
    (ho : o.mark = .opening name) (hname : name ≠ []) (hbody : ∀ l ∈ body, l.mark = .code)
    (hc : c.mark = .closing) (p : Program) (st : State) :
    scan setup (o :: (body ++ [c])) ⟨none, p⟩ st =
      (.ok ⟨none, p.insert name ⟨o.number, body⟩⟩, st) := by
  have hopen : line setup o ⟨none, p⟩ st = (.ok ⟨some ⟨name, o.number, []⟩, p⟩, st) := by
    rw [line_eq, ho]
    simp [hname]
  rw [scan, hopen]
  dsimp only
  rw [scan_append, scan_code setup hbody]
  simp only [Machine.andThen, scan, line_eq, hc, List.nil_append]

theorem scan_blocks {blocks : List Block} (hnames : (blocks.map (·.name)).Nodup)
    (hnamed : ∀ b ∈ blocks, b.name ≠ []) {ls : List SourceLine}
    (hls : ls.map (·.text) = blocks.flatMap fun b => b.opener :: (b.body ++ [closer]))
    (p : Program) (st : State) :
    ∃ q, scan setup ls ⟨none, p⟩ st = (.ok ⟨none, q⟩, st) ∧
      (∀ b ∈ blocks, (q.find? b.name).map Section.texts = some b.body) ∧
      ∀ name, (∀ b ∈ blocks, b.name ≠ name) → q.find? name = p.find? name := by
  induction blocks generalizing ls p with
  | nil =>
    obtain rfl : ls = [] := by simpa using hls
    exact ⟨p, rfl, by simp, fun _ _ => rfl⟩
  | cons b blocks ih =>
    obtain ⟨o, body, c, rest, rfl, ho, htexts, hbody, hc, hrest⟩ := Block.split_lines hls
    obtain ⟨hfresh, hnames⟩ := List.nodup_cons.mp hnames
    have hfirst := scan_block setup ho (hnamed b List.mem_cons_self) hbody hc p st
    obtain ⟨q, hscan, hfound, hkept⟩ := ih hnames
      (fun b hb => hnamed b (List.mem_cons_of_mem _ hb)) hrest (p.insert b.name ⟨o.number, body⟩)
    refine ⟨q, ?_, ?_, ?_⟩
    · rw [scan_append, hfirst]
      exact hscan
    · intro b' hb'
      rcases List.mem_cons.mp hb' with rfl | hb'
      · have hother : ∀ x ∈ blocks, x.name ≠ b'.name := by
          intro x hx heq
          exact hfresh (List.mem_map.mpr ⟨x, hx, heq⟩)
        rw [hkept _ hother, Table.find?_insert_self]
        exact congrArg some htexts
      · exact hfound b' hb'
    · intro name hname
      have hne : name ≠ b.name := (hname b List.mem_cons_self).symm
      rw [hkept name fun x hx => hname x (List.mem_cons_of_mem _ hx),
        Table.find?_insert_of_ne p hne]

theorem scan_blocks_unnamed {blocks : List Block} {b : Block} (hb : b ∈ blocks)
    (hname : b.name = []) {ls : List SourceLine}
    (hls : ls.map (·.text) = blocks.flatMap fun b => b.opener :: (b.body ++ [closer]))
    (p : Program) (st : State) : ∃ f, scan setup ls ⟨none, p⟩ st = (.error f, st) := by
  induction blocks generalizing ls p with
  | nil => cases hb
  | cons first blocks ih =>
    obtain ⟨o, body, c, rest, rfl, ho, _, hbody, hc, hrest⟩ := Block.split_lines hls
    by_cases hfirst : first.name = []
    · refine ⟨failAt .missingSectionName o, ?_⟩
      rw [List.cons_append, scan, line_eq, ho, hfirst]
      rfl
    · have hrestb : b ∈ blocks := by
        rcases List.mem_cons.mp hb with rfl | hb
        · exact absurd hname hfirst
        · exact hb
      rw [scan_append, scan_block setup ho hfirst hbody hc]
      exact ih hrestb hrest _

end Scan

/-! ## Loading blocks -/

theorem sourceTexts_source (blocks : List Block) : sourceTexts (Block.source blocks) =
    blocks.flatMap fun b => b.opener :: (b.body ++ [closer]) := by
  rw [Block.source, sourceTexts_join, List.flatMap_map]
  simp only [Block.lines]

/-- Loading the lines of blocks with different names files the blocks if they are ready, and else
fails; it changes nothing. -/
theorem load_blocks (setup : Setup) {blocks : List Block} (hnames : (blocks.map (·.name)).Nodup)
    {source : Bytes}
    (hsource : sourceTexts source = blocks.flatMap fun b => b.opener :: (b.body ++ [closer]))
    (st : State) :
    (∃ p, load setup source st = (.ok p, st) ∧ Block.Filed blocks p ∧
      Block.Ready setup.dialect blocks) ∨
    ∃ f, load setup source st = (.error f, st) ∧ ¬ Block.Ready setup.dialect blocks := by
  rw [load, lines_eq_scan, ← sourceLines]
  by_cases hnamed : ∀ b ∈ blocks, b.name ≠ []
  · obtain ⟨p, hscan, hfound, hkept⟩ := scan_blocks setup hnames hnamed hsource .empty st
    have hfiled : Block.Filed blocks p := ⟨hfound, fun name hname => hkept name hname⟩
    rw [hscan]
    dsimp only [finish]
    simp only [List.all_eq_true, hfiled.defines_iff]
    split
    case isTrue hentries => exact Or.inl ⟨p, rfl, hfiled, hnamed, hentries⟩
    case isFalse hentries => exact Or.inr ⟨_, rfl, fun hready => hentries hready.2⟩
  · obtain ⟨b, hb, hname⟩ : ∃ b ∈ blocks, b.name = [] := by simpa using hnamed
    obtain ⟨f, hscan⟩ := scan_blocks_unnamed setup hb hname hsource .empty st
    rw [hscan]
    exact Or.inr ⟨f, rfl, fun hready => hready.1 b hb hname⟩

theorem load_numbered {setup : Setup} {source : Bytes} {st : State} {p : Program}
    (h : (load setup source st).1 = .ok p) : p.Numbered := by
  rcases load_spec setup source st with ⟨q, st', hload, hreflects, _⟩ | ⟨f, st', hload, _⟩
  · rw [hload] at h
    obtain rfl := Except.ok.inj h
    exact hreflects.numbered
  · rw [hload] at h
    cases h

/-- The order of blocks with different names does not matter to the loader. -/
theorem load_perm (setup : Setup) {blocks blocks' : List Block} (hperm : blocks.Perm blocks')
    (hnames : (blocks.map (·.name)).Nodup) (st : State) :
    (∃ p p', load setup (Block.source blocks) st = (.ok p, st) ∧
      load setup (Block.source blocks') st = (.ok p', st) ∧ p.SameTexts p') ∨
    ∃ f f', load setup (Block.source blocks) st = (.error f, st) ∧
      load setup (Block.source blocks') st = (.error f', st) := by
  have hnames' : (blocks'.map (·.name)).Nodup := (hperm.map _).nodup_iff.mp hnames
  rcases load_blocks setup hnames (sourceTexts_source blocks) st with
      ⟨p, hload, hfiled, hready⟩ | ⟨f, hload, hready⟩ <;>
    rcases load_blocks setup hnames' (sourceTexts_source blocks') st with
      ⟨p', hload', hfiled', hready'⟩ | ⟨f', hload', hready'⟩
  · exact Or.inl ⟨p, p', hload, hload', hfiled.sameTexts hperm hfiled'⟩
  · exact absurd ((Block.ready_perm hperm).mp hready) hready'
  · exact absurd ((Block.ready_perm hperm).mpr hready') hready
  · exact Or.inr ⟨f, f', hload, hload'⟩

end Loading

/-- Programs with the same statement texts, section by section, run alike from the same state,
whatever the numbers of their lines: they give the same output, variables, count and rest of the
input, and errors that differ at most in the number of a line. Such programs are what loading
yields for a source that consists of blocks with different names and for each source with these
blocks in another order; it yields one for both or for neither, and changes nothing. -/
theorem layout_unseen :
    (∀ (setup setup' : Setup) (p p' : Program), setup'.dialect = setup.dialect →
      setup.program = some p → setup'.program = some p' → p.Numbered → p'.Numbered →
      p.SameTexts p' → ∀ (fuel : Nat) (task : Task) (st : State),
        (task.outcome setup fuel st).1.mapError Fault.unnumbered =
          (task.outcome setup' fuel st).1.mapError Fault.unnumbered ∧
        (task.outcome setup fuel st).2.Unobserved Eq (task.outcome setup' fuel st).2) ∧
    ∀ (setup : Setup) (blocks blocks' : List Loading.Block), blocks.Perm blocks' →
      (blocks.map (·.name)).Nodup → ∀ st : State,
        let loaded := Loading.load setup (Loading.Block.source blocks) st
        let loaded' := Loading.load setup (Loading.Block.source blocks') st
        ((∃ p, loaded.1 = .ok p) ↔ ∃ p', loaded'.1 = .ok p') ∧ loaded.2 = st ∧ loaded'.2 = st ∧
        ∀ p p', loaded.1 = .ok p → loaded'.1 = .ok p' →
          p.Numbered ∧ p'.Numbered ∧ p.SameTexts p' := by
  constructor
  · intro setup setup' p p' hdialect hp hp' hnum hnum' htexts fuel task st
    exact htexts.outcome hdialect hp hp' hnum hnum' fuel task ⟨rfl, rfl, rfl, rfl, rfl, rfl⟩
  · intro setup blocks blocks' hperm hnames st loaded loaded'
    rcases Loading.load_perm setup hperm hnames st with
      ⟨q, q', hload, hload', htexts⟩ | ⟨f, f', hload, hload'⟩
    · refine ⟨?_, by simp [loaded, hload], by simp [loaded', hload'], ?_⟩
      · simp [loaded, loaded', hload, hload']
      · intro p p' hp hp'
        refine ⟨Loading.load_numbered hp, Loading.load_numbered hp', ?_⟩
        obtain rfl : q = p := by simpa [loaded, hload] using hp
        obtain rfl : q' = p' := by simpa [loaded', hload'] using hp'
        exact htexts
    · refine ⟨?_, by simp [loaded, hload], by simp [loaded', hload'], ?_⟩
      · simp [loaded, loaded', hload, hload']
      · intro p p' hp
        simp [loaded, hload] at hp

def greeting : Loading.Block where
  text := ascii "sect greet\n\n  print \"hi\"\n  print $who\n;"
  opener := ascii "sect greet"
  name := ascii "greet"
  body := [ascii "print \"hi\"", ascii "print $who"]
  lines := by decide +kernel
  opens := by decide +kernel
  code := by decide +kernel

def visiting : Loading.Block where
  text := ascii "sect main\n@greet\n;"
  opener := ascii "sect main"
  name := mainSection
  body := [ascii "@greet"]
  lines := by decide +kernel
  opens := by decide +kernel
  code := by decide +kernel

/-- Clarity with the program that the blocks make. -/
def ofBlocks (blocks : List Loading.Block) : Setup where
  dialect := .clarity
  program := (Loading.load { dialect := .clarity } (Loading.Block.source blocks) {}).1.toOption

theorem load_of_ofBlocks {blocks : List Loading.Block} {p : Program}
    (h : (ofBlocks blocks).program = some p) :
    (Loading.load { dialect := .clarity } (Loading.Block.source blocks) {}).1 = .ok p := by
  rw [ofBlocks] at h
  cases hload : (Loading.load { dialect := .clarity } (Loading.Block.source blocks) {}).1 with
  | ok q =>
    rw [hload] at h
    exact congrArg Except.ok (Option.some.inj h)
  | error f =>
    rw [hload] at h
    cases h

theorem layout_unseen_greeting :
    [greeting, visiting].Perm [visiting, greeting] ∧
    ([greeting, visiting].map (·.name)).Nodup ∧
    (Task.program.outcome (ofBlocks [greeting, visiting]) 2 {}).1 =
      .error (.error ⟨.undefinedVariable (ascii "who"), 4, ascii "print $who"⟩) ∧
    (Task.program.outcome (ofBlocks [visiting, greeting]) 2 {}).1 =
      .error (.error ⟨.undefinedVariable (ascii "who"), 7, ascii "print $who"⟩) ∧
    (Task.program.outcome (ofBlocks [greeting, visiting]) 2 {}).1.mapError Fault.unnumbered =
      (Task.program.outcome (ofBlocks [visiting, greeting]) 2 {}).1.mapError Fault.unnumbered ∧
    (Task.program.outcome (ofBlocks [greeting, visiting]) 2 {}).2.Unobserved Eq
      (Task.program.outcome (ofBlocks [visiting, greeting]) 2 {}).2 := by
  have hperm : [greeting, visiting].Perm [visiting, greeting] := .swap _ _ _
  have hnames : ([greeting, visiting].map (·.name)).Nodup := by decide +kernel
  obtain ⟨_, _, _, hloaded⟩ := layout_unseen.2 { dialect := .clarity } _ _ hperm hnames {}
  have hsome : (ofBlocks [greeting, visiting]).program.isSome = true := by decide +kernel
  have hsome' : (ofBlocks [visiting, greeting]).program.isSome = true := by decide +kernel
  obtain ⟨p, hp⟩ := Option.isSome_iff_exists.mp hsome
  obtain ⟨p', hp'⟩ := Option.isSome_iff_exists.mp hsome'
  obtain ⟨hnum, hnum', htexts⟩ := hloaded p p' (load_of_ofBlocks hp) (load_of_ofBlocks hp')
  have hdialect : (ofBlocks [visiting, greeting]).dialect =
      (ofBlocks [greeting, visiting]).dialect := by rw [ofBlocks, ofBlocks]
  have hsame := layout_unseen.1 (ofBlocks [greeting, visiting]) (ofBlocks [visiting, greeting]) p p'
    hdialect hp hp' hnum hnum' htexts 2 .program {}
  refine ⟨hperm, hnames, ?_, ?_, hsame⟩
  · decide +kernel
  · decide +kernel

end SectScript
