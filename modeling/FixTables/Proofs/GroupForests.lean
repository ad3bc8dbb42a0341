import FixTables.Proofs.Identifiers
import FixTables.Proofs.TextParts

namespace FixTables

namespace GroupLayout

/-- The groups in a list and those nested in them, each one after those nested in it. -/
def all : List GroupLayout → List GroupLayout
  | [] => []
  | ⟨name, countTag, delimiterTag, sequence, groups⟩ :: gs =>
    all groups ++ ⟨name, countTag, delimiterTag, sequence, groups⟩ :: all gs

theorem all_cons (g : GroupLayout) (gs : List GroupLayout) :
    all (g :: gs) = all g.groups ++ g :: all gs := by
  cases g
  rw [all]

theorem all_append (gs hs : List GroupLayout) : all (gs ++ hs) = all gs ++ all hs := by
  induction gs with
  | nil => simp [all]
  | cons g gs ih => simp [all_cons, ih]

/-- Induction over the groups of a list and those nested in them. -/
theorem forest_induction {motive : List GroupLayout → Prop} (nil : motive [])
    (cons : ∀ g gs, motive g.groups → motive gs → motive (g :: gs)) (gs : List GroupLayout) :
    motive gs :=
  match gs with
  | [] => nil
  | ⟨_, _, _, _, groups⟩ :: gs =>
    cons _ gs (forest_induction nil cons groups) (forest_induction nil cons gs)

mutual
/-- The table that a layout gives. -/
def table : GroupLayout → GroupTable
  | ⟨_, countTag, delimiterTag, sequence, groups⟩ =>
    ⟨countTag, delimiterTag, sequence, tables groups⟩
def tables : List GroupLayout → List GroupTable
  | [] => []
  | g :: gs => g.table :: tables gs
end

end GroupLayout

namespace GroupListing

/-- The groups in a list and those nested in them, each one after those nested in it. -/
def all : List GroupListing → List GroupListing
  | [] => []
  | ⟨identifier, name, countTag, delimiterTag, sequence, groups⟩ :: gs =>
    all groups ++ ⟨identifier, name, countTag, delimiterTag, sequence, groups⟩ :: all gs

theorem all_cons (g : GroupListing) (gs : List GroupListing) :
    all (g :: gs) = all g.groups ++ g :: all gs := by
  cases g
  rw [all]

theorem subset_all (gs : List GroupListing) : gs ⊆ all gs := by
  induction gs with
  | nil => simp
  | cons g gs ih =>
    rw [all_cons]
    intro x hx
    rcases List.mem_cons.mp hx with rfl | hx
    · simp
    · simp [ih hx]

/-- Induction over the groups of a list and those nested in them. -/
theorem forest_induction {motive : List GroupListing → Prop} (nil : motive [])
    (cons : ∀ g gs, motive g.groups → motive gs → motive (g :: gs)) (gs : List GroupListing) :
    motive gs :=
  match gs with
  | [] => nil
  | ⟨_, _, _, _, _, groups⟩ :: gs =>
    cons _ gs (forest_induction nil cons groups) (forest_induction nil cons gs)

theorem groups_subset_all {gs : List GroupListing} {g : GroupListing} (h : g ∈ all gs) :
    g.groups ⊆ all gs := by
  induction gs using forest_induction with
  | nil => simp [all] at h
  | cons first gs nested others =>
    rw [all_cons] at h ⊢
    obtain h | h := List.mem_append.mp h
    · exact List.Subset.trans (nested h) (List.subset_append_left _ _)
    · obtain rfl | h := List.mem_cons.mp h
      · exact List.Subset.trans (subset_all _) (List.subset_append_left _ _)
      · have further : all gs ⊆ all first.groups ++ first :: all gs := fun x hx => by simp [hx]
        exact List.Subset.trans (others h) further

theorem tables_eq_map (gs : List GroupListing) : tables gs = gs.map (·.table) := by
  induction gs with
  | nil => rfl
  | cons g gs ih => rw [tables, List.map_cons, ih]

theorem ofLayouts_cons (parent : String) (taken : List String) (g : GroupLayout)
    (gs : List GroupLayout) :
    let identifier := uniqueIdentifier taken (childIdentifier parent g.name)
    let nested := ofLayouts identifier (identifier :: taken) g.groups
    let others := ofLayouts parent nested.2 gs
    ofLayouts parent taken (g :: gs) =
      (⟨identifier, g.name, g.countTag, g.delimiterTag, g.sequence, nested.1⟩ :: others.1,
        others.2) := by
  cases g
  simp [ofLayouts, ofLayout, declareIdentifier]

theorem all_ofLayouts_names (parent : String) (taken : List String) (gs : List GroupLayout) :
    (all (ofLayouts parent taken gs).1).map (·.name) = (GroupLayout.all gs).map (·.name) := by
  induction gs using GroupLayout.forest_induction generalizing parent taken with
  | nil => simp [ofLayouts, all, GroupLayout.all]
  | cons g gs nested others => simp [ofLayouts_cons, all_cons, GroupLayout.all_cons, nested, others]

/-- Identifiers change nothing in what the tables hold. -/
theorem tables_ofLayouts (parent : String) (taken : List String) (gs : List GroupLayout) :
    tables (ofLayouts parent taken gs).1 = GroupLayout.tables gs := by
  induction gs using GroupLayout.forest_induction generalizing parent taken with
  | nil => simp [ofLayouts, tables, GroupLayout.tables]
  | cons g gs nested others =>
    cases g
    simp [ofLayouts_cons, tables, table, GroupLayout.tables, GroupLayout.table, nested, others]

end GroupListing

/-- Identifiers are declared: none was taken before or comes twice, and all are taken then. -/
structure Declared (taken identifiers taken' : List String) : Prop where
  nodup : identifiers.Nodup
  fresh : ∀ i ∈ identifiers, i ∉ taken
  taken_iff : ∀ i, i ∈ taken' ↔ i ∈ identifiers ∨ i ∈ taken

namespace Declared

variable {taken taken' taken'' first second : List String}

theorem nil (taken : List String) : Declared taken [] taken := ⟨by simp, by simp, by simp⟩

theorem one (taken : List String) (base : String) :
    Declared taken [uniqueIdentifier taken base] (uniqueIdentifier taken base :: taken) :=
  ⟨by simp, by simpa using uniqueIdentifier_not_mem taken base, by simp⟩

theorem append (h : Declared taken first taken') (h' : Declared taken' second taken'') :
    Declared taken (first ++ second) taken'' where
  nodup := by
    refine List.nodup_append.mpr ⟨h.nodup, h'.nodup, ?_⟩
    rintro i hi _ hj rfl
    exact h'.fresh i hj ((h.taken_iff i).mpr (.inl hi))
  fresh i hi ht := by
    rcases List.mem_append.mp hi with hi | hi
    · exact h.fresh i hi ht
    · exact h'.fresh i hi ((h.taken_iff i).mpr (.inr ht))
  taken_iff i := by
    rw [h'.taken_iff, h.taken_iff, List.mem_append]
    tauto

theorem perm (h : Declared taken first taken') (hp : first.Perm second) :
    Declared taken second taken' where
  nodup := hp.nodup_iff.mp h.nodup
  fresh i hi := h.fresh i (hp.mem_iff.mpr hi)
  taken_iff i := by rw [h.taken_iff, hp.mem_iff]

/-- All groups of a forest get identifiers of their own, each before those nested in it. -/
theorem ofLayouts (parent : String) (taken : List String) (gs : List GroupLayout) :
    Declared taken
      ((GroupListing.all (GroupListing.ofLayouts parent taken gs).1).map (·.identifier))
      (GroupListing.ofLayouts parent taken gs).2 := by
  induction gs using GroupLayout.forest_induction generalizing parent taken with
  | nil => simpa [GroupListing.ofLayouts, GroupListing.all] using nil taken
  | cons g gs nested others =>
    simp only [GroupListing.ofLayouts_cons, GroupListing.all_cons, List.map_append, List.map_cons]
    have head := one taken (childIdentifier parent g.name)
    refine ((head.append (nested _ _)).append (others _ _)).perm ?_
    simpa using List.perm_middle.symm

end Declared

namespace Listing

theorem declareMessages_declared (symbol : String) (taken : List String)
    (ls : List MessageLayout) :
    Declared taken ((declareMessages symbol taken ls).1.map (·.1))
      (declareMessages symbol taken ls).2 := by
  induction ls generalizing taken with
  | nil => exact .nil taken
  | cons l ls ih => exact (Declared.one taken (childIdentifier symbol l.name)).append (ih _)

theorem declareGroups_declared (withGroups : Bool) (taken : List String)
    (ps : List (String × MessageLayout)) :
    ∃ taken', Declared taken ((declareGroups withGroups taken ps).flatMap fun m =>
      (GroupListing.all m.groups).map (·.identifier)) taken' := by
  induction ps generalizing taken with
  | nil => exact ⟨taken, .nil taken⟩
  | cons p ps ih =>
    cases withGroups with
    | false =>
      obtain ⟨taken', others⟩ := ih taken
      exact ⟨taken', by simpa [declareGroups, GroupListing.all] using others⟩
    | true =>
      obtain ⟨taken', others⟩ := ih (GroupListing.ofLayouts p.1 taken p.2.groups).2
      exact ⟨taken', (Declared.ofLayouts p.1 taken p.2.groups).append others⟩

end Listing

/-- All that a listing declares has an identifier of the right form. -/
structure Listing.WellNamed (l : Listing) : Prop where
  symbol : IsIdentifier l.symbol
  tags : IsIdentifier l.tagsIdentifier
  messages : ∀ m ∈ l.messages, IsIdentifier m.identifier
  groups : ∀ m ∈ l.messages, ∀ g ∈ GroupListing.all m.groups, IsIdentifier g.identifier

section WellNamed

theorem ofLayouts_identifiers {parent : String} (h : IsIdentifier parent) (taken : List String)
    (gs : List GroupLayout) :
    ∀ g ∈ GroupListing.all (GroupListing.ofLayouts parent taken gs).1,
      IsIdentifier g.identifier := by
  induction gs using GroupLayout.forest_induction generalizing parent taken with
  | nil => simp [GroupListing.ofLayouts, GroupListing.all]
  | cons g gs nested others =>
    have own := (h.childIdentifier g.name).uniqueIdentifier taken
    rw [GroupListing.ofLayouts_cons, GroupListing.all_cons, List.forall_mem_append,
      List.forall_mem_cons]
    exact ⟨nested own _, own, others h _⟩

namespace Listing

theorem declareMessages_identifiers {symbol : String} (h : IsIdentifier symbol)
    (taken : List String) (ls : List MessageLayout) :
    ∀ p ∈ (declareMessages symbol taken ls).1, IsIdentifier p.1 := by
  induction ls generalizing taken with
  | nil => simp [declareMessages]
  | cons l ls ih =>
    simp only [declareMessages, List.forall_mem_cons]
    exact ⟨(h.childIdentifier l.name).uniqueIdentifier taken, ih _⟩

theorem declareGroups_identifiers (withGroups : Bool) (taken : List String)
    {ps : List (String × MessageLayout)} (h : ∀ p ∈ ps, IsIdentifier p.1) :
    ∀ m ∈ declareGroups withGroups taken ps,
      IsIdentifier m.identifier ∧ ∀ g ∈ GroupListing.all m.groups, IsIdentifier g.identifier := by
  induction ps generalizing taken with
  | nil => simp [declareGroups]
  | cons p ps ih =>
    obtain ⟨own, others⟩ := List.forall_mem_cons.mp h
    rw [declareGroups, List.forall_mem_cons]
    refine ⟨⟨own, ?_⟩, ih _ others⟩
    cases withGroups with
    | false => simp [GroupListing.all]
    | true => exact ofLayouts_identifiers own taken p.2.groups

end Listing

end WellNamed

end FixTables
