import FixTables.Proofs.CompiledAlike

namespace FixTables

/-- What a tag table tells about a field. -/
def Field.row (f : Field) : TagRow := .make f.tag f.type.wireType f.location f.related

namespace Listing

/-- Only the names of layouts have a part in the identifiers declared for them. -/
theorem declareMessages_map {view : MessageLayout → MessageLayout}
    (named : ∀ l, (view l).name = l.name) (symbol : String) (taken : List String)
    (ls : List MessageLayout) :
    declareMessages symbol taken (ls.map view) =
      ((declareMessages symbol taken ls).1.map fun p => (p.1, view p.2),
        (declareMessages symbol taken ls).2) := by
  induction ls generalizing taken with
  | nil => rfl
  | cons l ls ih => simp only [List.map_cons, declareMessages, named, ih]

theorem declareGroups_bare (withGroups : Bool) (taken : List String)
    (ps : List (String × MessageLayout)) :
    declareGroups withGroups taken (ps.map fun p => (p.1, p.2.bare)) =
      declareGroups withGroups taken ps := by
  induction ps generalizing taken with
  | nil => rfl
  | cons p ps ih =>
    simp only [List.map_cons, declareGroups, ih]
    rfl

/-- The lines of a listing's source text before its rows, of which only the number shows there. -/
def linesBefore (c : EmitterConfig) (l : Listing) : List String :=
  l.preambleLines c ++ l.versionLines c ++
    [s!"/// {l.version.label} tag table, sorted by tag.",
      s!"{c.visibility} static {l.tagsIdentifier}: [TagSpec; {l.rows.length + 1}] = ["]

/-- The lines after the rows. -/
def linesAfter (c : EmitterConfig) (l : Listing) : List String :=
  ["    TagSpec::SENTINEL,", "];", ""] ++ l.messages.flatMap (·.sourceLines c.visibility l.symbol)

theorem sourceLines_around_rows (c : EmitterConfig) (l : Listing) :
    l.sourceLines c = l.linesBefore c ++ l.rows.map (·.sourceLine) ++ l.linesAfter c := by
  simp [sourceLines, linesBefore, linesAfter, tagTableLines]

theorem linesBefore_congr (c : EmitterConfig) (l : Listing) {rows : List TagRow}
    (length : l.rows.length = rows.length) :
    ({ l with rows } : Listing).linesBefore c = l.linesBefore c := by
  simp only [linesBefore, length]
  rfl

end Listing

namespace Spec

variable {view : Field → Field} {root root' : Node} {config : CompilerConfig} {s s' : Spec}

theorem listing_bare (s : Spec) (withGroups : Bool) :
    ({ s with layouts := s.layouts.map MessageLayout.bare } : Spec).listing withGroups =
      s.listing withGroups := by
  have named (l : MessageLayout) : l.bare.name = l.name := rfl
  simp only [listing, Listing.declareMessages_map named, Listing.declareGroups_bare]
  rfl

/-- Dictionaries that are alike are listed alike, but for the rows of their tag tables. -/
theorem Alike.listing (h : s.Alike view s') (withGroups : Bool) :
    s'.listing withGroups = { s.listing withGroups with rows := s'.tagRows } := by
  rw [← s.listing_bare, ← s'.listing_bare, h.layouts]
  simp only [Spec.listing, h.version]
  rfl

theorem Alike.fields_sorted (h : s.Alike view s') (isView : Field.IsView view) :
    s.fields.sortedByTag.map view = s'.fields.sortedByTag.map view :=
  h.fields.sortedByTag isView h.tags_distinct

/-- A view that shows all of a field's row leaves no room for different texts. -/
theorem Alike.source (h : s.Alike view s') (isView : Field.IsView view)
    (shown : ∀ f, (view f).row = f.row) (c : EmitterConfig) : s.source c = s'.source c := by
  have by_view (r : FieldRegistry) :
      r.sortedByTag.map Field.row = (r.sortedByTag.map view).map Field.row := by
    rw [List.map_map]
    exact List.map_congr_left fun f _ => (shown f).symm
  have rows : s.tagRows = s'.tagRows := by
    change s.fields.sortedByTag.map Field.row = s'.fields.sortedByTag.map Field.row
    rw [by_view, by_view, h.fields_sorted isView]
  rw [Spec.source, Spec.source, h.listing, ← rows]
  rfl

/-- Wherever declarations read from one root can be read alike from another, what compiles from the
one compiles alike from the other. -/
theorem compile_follows (isView : Field.IsView view)
    (reads : ∀ (d : Declarations) (sections : Sections), d.ReadFrom root sections →
      ∃ (d' : Declarations) (sections' : Sections), d'.ReadFrom root' sections' ∧ d.Alike view d')
    (h : (compile root config).outcome = .ok s) :
    ∃ s', (compile root' config).outcome = .ok s' ∧ s.Alike view s' := by
  obtain ⟨d, sections, read, link⟩ := compile_eq_ok_iff_linkTo.mp h
  obtain ⟨d', sections', read', alike⟩ := reads d sections read
  obtain ⟨s', link', same⟩ := link.follow alike read.distinct isView
  exact ⟨s', compile_eq_ok_iff_linkTo.mpr ⟨d', sections', read', link'⟩, same⟩

end Spec

variable {root root' : Node} {config : CompilerConfig} {emitter : EmitterConfig} {text : String}

theorem generateNode_eq_ok_iff :
    (generateNode root config emitter).outcome = .ok text ↔
      ∃ s, (Spec.compile root config).outcome = .ok s ∧ text = s.source emitter := by
  unfold generateNode
  rw [Traced.bind_eq_ok_iff]
  refine exists_congr fun s => and_congr_right fun _ => ?_
  simp [Spec.emit, Except.map, eq_comm]

theorem generateNode_follows {view : Field → Field} (isView : Field.IsView view)
    (shown : ∀ f, (view f).row = f.row)
    (reads : ∀ (d : Declarations) (sections : Spec.Sections), d.ReadFrom root sections →
      ∃ (d' : Declarations) (sections' : Spec.Sections),
        d'.ReadFrom root' sections' ∧ d.Alike view d')
    (h : (generateNode root config emitter).outcome = .ok text) :
    (generateNode root' config emitter).outcome = .ok text := by
  obtain ⟨s, hs, rfl⟩ := generateNode_eq_ok_iff.mp h
  obtain ⟨s', hs', same⟩ := Spec.compile_follows isView reads hs
  exact generateNode_eq_ok_iff.mpr ⟨s', hs', same.source isView shown emitter⟩

end FixTables
