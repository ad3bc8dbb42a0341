import Mathlib
import FixTables.Listing.Source
import FixTables.Proofs.Compilation
import FixTables.Proofs.GroupForests
import FixTables.Proofs.OrderedSearch
import FixTables.Proofs.TextOrder

namespace FixTables

def MessageLayout.IsOf (l : MessageLayout) (m : Message) : Prop :=
  l.name = m.name ∧ l.msgType = m.msgType ∧ l.typeId = m.typeId

def MessageTable.IsOf (t : MessageTable) (l : MessageLayout) : Prop :=
  t.name = l.name ∧ t.msgType = l.msgType ∧ t.typeId = l.typeId ∧
    ∀ tag, t.sequence.position tag = l.position tag

namespace MessageRegistry

theorem sortedByType_ascending {r : MessageRegistry} (h : (r.messages.map (·.msgType)).Nodup) :
    r.sortedByType.Pairwise fun a b => a.msgType < b.msgType :=
  pairwise_mergeSort_key_lt (fun _ _ => decide_eq_true_iff) h

end MessageRegistry

namespace Spec

variable {root : Node} {config : CompilerConfig} {s : Spec}

theorem Stages.layouts_isOf (t : Stages root config s) :
    List.Forall₂ (fun m l => l.IsOf m) s.messages.sortedByType s.layouts := by
  refine t.layouts_of_messages.imp fun m l h => ?_
  obtain ⟨name, type, typeId, _⟩ := MessageLayout.build_eq_ok h.2
  exact ⟨name, type, typeId⟩

theorem Stages.layouts_ascending (t : Stages root config s) :
    s.layouts.Pairwise fun a b => a.msgType < b.msgType := by
  have types : s.messages.sortedByType.map (·.msgType) = s.layouts.map (·.msgType) :=
    map_eq_of_forall₂ t.layouts_isOf fun m l h => h.2.1.symm
  have := MessageRegistry.sortedByType_ascending t.messages_distinct.1
  rwa [← List.pairwise_map, types, List.pairwise_map] at this

/-- The declarations of messages can be told apart, so each reference to one finds its own. -/
theorem listing_identifiers_nodup (s : Spec) (withGroups : Bool) :
    ((s.listing withGroups).messages.map (·.identifier)).Nodup := by
  have declared := Listing.declareMessages_declared s.version.symbol
    (declareIdentifier [s.version.symbol] s!"{s.version.symbol}_TAGS").2 s.layouts
  have identifiers := declared.nodup
  rwa [map_eq_of_forall₂ (Listing.declareGroups_messages withGroups _ _) fun p d h =>
    h.1.symm] at identifiers

/-- A dictionary of two messages, declared against the order of their types, whose names give the
same identifier. -/
def twoOrderLists : Node :=
  let member name := (Node.leaf "field").withAttribute "name" name
  let field name number := ((member name).withAttribute "number" number).withAttribute "type" "CHAR"
  let message name msgType :=
    ((Node.leaf "message").withAttribute "name" name).withAttribute "msgtype" msgType
  { ((Node.leaf "fix").withAttribute "major" "4").withAttribute "minor" "4" with
    children := [
      { Node.leaf "fields" with
        children := [field "BeginString" "8", field "ListID" "66", field "CheckSum" "10"] },
      (Node.leaf "header").append (member "BeginString"),
      (Node.leaf "trailer").append (member "CheckSum"),
      { Node.leaf "messages" with
        children := [(message "OrderList" "N").append (member "ListID"),
          message "Order-List" "E"] }] }

end Spec

end FixTables
