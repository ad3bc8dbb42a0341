import FixTables.Proofs.WrittenAlike

namespace FixTables

def MessageLayout.withoutGroups (l : MessageLayout) : MessageLayout := { l with groups := [] }

/-- A specification whose layouts have lost their groups. -/
def Spec.withoutGroups (s : Spec) : Spec :=
  { s with layouts := s.layouts.map MessageLayout.withoutGroups }

def MessageListing.withoutGroups (m : MessageListing) : MessageListing := { m with groups := [] }

/-- A listing whose messages have lost their groups and kept all else, in their order. -/
def Listing.withoutGroups (l : Listing) : Listing :=
  { l with messages := l.messages.map MessageListing.withoutGroups }

namespace Listing

/-- Where groups are not wanted, messages are listed as if their layouts had none; the identifiers
taken by then do not matter. -/
theorem declareGroups_withoutGroups (taken taken' : List String)
    (ps : List (String × MessageLayout)) :
    declareGroups true taken (ps.map fun p => (p.1, p.2.withoutGroups)) =
      declareGroups false taken' ps := by
  induction ps generalizing taken taken' with
  | nil => rfl
  | cons p ps ih =>
    simp only [List.map_cons, declareGroups]
    rw [ih _ taken']
    rfl

theorem declareGroups_false (taken taken' : List String) (ps : List (String × MessageLayout)) :
    declareGroups false taken' ps =
      (declareGroups true taken ps).map MessageListing.withoutGroups := by
  induction ps generalizing taken taken' with
  | nil => rfl
  | cons p ps ih =>
    simp only [declareGroups, List.map_cons]
    rw [← ih]
    rfl

end Listing

namespace Spec

theorem listing_false (s : Spec) : s.listing false = (s.listing true).withoutGroups := by
  simp only [listing, Listing.withoutGroups]
  rw [Listing.declareGroups_false]

theorem listing_withoutGroups (s : Spec) : s.withoutGroups.listing true = s.listing false := by
  have named (l : MessageLayout) : l.withoutGroups.name = l.name := rfl
  simp only [listing, withoutGroups, Listing.declareMessages_map named]
  rw [Listing.declareGroups_withoutGroups]
  rfl

/-- What is emitted without groups is what is emitted, groups and all, of the specification that has
none: the same identifiers in the same order and the same tables, the groups of each message left
out. -/
theorem emit_without_groups {ε : Type} (s : Spec) (c : EmitterConfig) :
    (s.emit { c with emitGroups := false } : Traced ε String) =
        s.withoutGroups.emit { c with emitGroups := true } ∧
      s.source { c with emitGroups := false } =
        s.withoutGroups.source { c with emitGroups := true } ∧
      s.listing false = (s.listing true).withoutGroups ∧
      (s.listing false).versionLines c = (s.listing true).versionLines c ∧
      (s.listing false).tagTableLines c = (s.listing true).tagTableLines c := by
  have text : s.source { c with emitGroups := false } =
      s.withoutGroups.source { c with emitGroups := true } := by
    simp only [source, listing_withoutGroups]
    rfl
  have layouts : s.withoutGroups.layouts.length = s.layouts.length := by simp [withoutGroups]
  refine ⟨?_, text, s.listing_false, ?_, ?_⟩
  · simp only [emit, text, layouts]
    rfl
  · have identifiers : (s.listing false).messages.map (·.identifier) =
        (s.listing true).messages.map (·.identifier) := by
      rw [s.listing_false, Listing.withoutGroups, List.map_map]
      rfl
    simp only [Listing.versionLines, identifiers]
    rfl
  · rw [s.listing_false]
    rfl

end Spec

end FixTables
