import Statechart.Chart.Reader
import Statechart.Proofs.Chart.Arena
import Statechart.Proofs.Definition.Storage
import Statechart.Proofs.Definition.TreeRewording

/-!
# Charts and their canonical definitions

A chart is read again from its definition in canonical form, and from every other way to write the
document that it was read from. Both are decoded to the same definition, on which alone the arena,
the default context and the checksum depend.
-/
namespace Statechart.Chart

theorem build_definition {d : Definition} {c : Chart} (h : build d = .ok c) :
    c.definition = d := by
  obtain ⟨_, _, _, _, _, _, rfl⟩ := build_ok h
  rfl

theorem ofJson_ok_iff {j : Json} {c : Chart} :
    ofJson j = .ok c ↔ ∃ d, Definition.decode j = .ok d ∧ build d = .ok c := by
  simp only [ofJson, ofDefinition, bind_eq_ok_iff, mapError_eq_ok_iff]

/-- The arena of a chart that is read from a document is that of a tree with its tables in order. -/
theorem ofJson_arena {j : Json} {c : Chart} (h : ofJson j = .ok c) : c.Arena c.definition := by
  obtain ⟨d, hd, hc⟩ := ofJson_ok_iff.mp h
  rw [build_definition hc]
  exact build_arena (Definition.decode_ordered hd) hc

/-- A chart that is read from a document is read from its canonical definition, and from every
document of the same form: the definition, the arena, the default context and the checksum are the
same, and so is what is written of it. -/
theorem ofJson_canonical {j : Json} {c : Chart} (h : ofJson j = .ok c) :
    ofJson c.definition.toJson = .ok c ∧
      ∀ j', Definition.SameForm j j' → ofJson j' = .ok c := by
  obtain ⟨d, hd, hc⟩ := ofJson_ok_iff.mp h
  refine ⟨ofJson_ok_iff.mpr ⟨d, ?_, hc⟩, fun j' hform => ofJson_ok_iff.mpr ⟨d, ?_, hc⟩⟩
  · rw [build_definition hc]
    exact Definition.decode_toJson hd
  · exact (hform.agree d).mp hd

/-- A shut door, pushed open if a guard holds. -/
def shutDocument (guard : String) : Json :=
  .obj [("on", .obj [("push", .obj [("guard", .str guard), ("target", .str "open")])])]

/-- An open door, pulled shut. -/
def openDocument (transitions : Json) (others : List (String × Json)) : Json :=
  .obj (("on", .obj [("pull", transitions)]) :: others)

/-- The members of a door with two states, in no order. -/
def doorMembers (shut opened : Json) : List (String × Json) :=
  [("states", .obj [("shut", shut), ("open", opened)]), ("initial", .str "shut"),
    ("id", .str "door")]

def doorDocument : Json :=
  .obj (doorMembers (shutDocument " ctx.free") (openDocument (.str "shut") []))

/-- The door in the opposite order, with other blanks, a list of one target and an empty list. -/
def doorRecord : Json :=
  .obj (doorMembers (shutDocument "ctx.free")
    (openDocument (.arr [.str "shut"]) [("exit", .arr [])])).reverse

def doorDefinition : Definition where
  id := "door"
  root := {
    initial := some "shut"
    states := [
      ("open", { on := [("pull", [{ target := some "shut" }])] }),
      ("shut", { on := [("push", [{
        target := some "open"
        guard := some (.expression ⟨"ctx.free", .context "free", rfl⟩) }])] })] }

def doorChart : Chart where
  definition := doorDefinition
  states := #[
    ⟨"door", none, 0, [1, 2], some 2, [], [], [], none⟩,
    ⟨"open", some 0, 1, [], none, [], [], [("pull", [⟨1, "pull", some 2, none, []⟩])], none⟩,
    ⟨"shut", some 0, 1, [], none, [], [],
      [("push", [⟨2, "push", some 1, some (.expression ⟨"ctx.free", .context "free", rfl⟩), []⟩])],
      none⟩]
  defaultContext := .obj []
  checksum := doorDefinition.checksum

theorem ofJson_door : ofJson doorDocument = .ok doorChart :=
  ofJson_ok_iff.mpr ⟨doorDefinition, rfl, rfl⟩

theorem sameForm_shut {v w : Json} (h : StateDef.Rewording v w) (opened : Json) :
    Definition.SameForm (.obj (doorMembers v opened)) (.obj (doorMembers w opened)) :=
  .rel _ _ (@Definition.Rewording.child [] _ [] [("open", opened)] "shut" _ _ h)

theorem sameForm_open {v w : Json} (h : StateDef.Rewording v w) (shut : Json) :
    Definition.SameForm (.obj (doorMembers shut v)) (.obj (doorMembers shut w)) :=
  .rel _ _ (@Definition.Rewording.child [] _ [("shut", shut)] [] "open" _ _ h)

theorem sameForm_door : Definition.SameForm doorDocument doorRecord := by
  have hblanks : StateDef.Rewording (shutDocument " ctx.free") (shutDocument "ctx.free") :=
    .members (@Decode.MemberRewording.change _ _ [] [] _ _ _ (.on (.entries
      (@Decode.MemberRewording.change _ _ [] [] _ _ _ (.alone (.members
        (@Decode.MemberRewording.change _ _ [] [("target", .str "open")] _ _ _
          (.inl ⟨rfl, .expression rfl⟩))))))))
  have htarget : StateDef.Rewording (openDocument (.str "shut") [])
      (openDocument (.arr [.str "shut"]) []) :=
    .members (@Decode.MemberRewording.change _ _ [] [] _ _ _ (.on (.entries
      (@Decode.MemberRewording.change _ _ [] [] _ _ _ (.single (by simp))))))
  have hexit : StateDef.Rewording (openDocument (.arr [.str "shut"]) [])
      (openDocument (.arr [.str "shut"]) [("exit", .arr [])]) :=
    .members (@Decode.MemberRewording.blank _ _ [("on", .obj [("pull", .arr [.str "shut"])])] [] _ _
      (by simp [StateDef.Blank]) (by simp [Keyed.keys]))
  refine .trans _ _ _ (sameForm_shut hblanks _) (.trans _ _ _ (sameForm_open htarget _) ?_)
  refine .trans _ _ _ (sameForm_open hexit _) ?_
  exact Definition.SameForm.of_perm (List.reverse_perm _).symm (by simp [doorMembers, Keyed.keys])

/-- The two ways to write the door, and its canonical definition, are read as the same chart. -/
theorem ofJson_canonical_door : ofJson doorDocument = .ok doorChart ∧
    ofJson doorChart.definition.toJson = .ok doorChart ∧ ofJson doorRecord = .ok doorChart := by
  obtain ⟨hcanonical, hform⟩ := ofJson_canonical ofJson_door
  exact ⟨ofJson_door, hcanonical, hform doorRecord sameForm_door⟩

end Statechart.Chart
