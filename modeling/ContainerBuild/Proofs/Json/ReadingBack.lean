import ContainerBuild.Json.Record
import ContainerBuild.Proofs.Json.Recognition
import ContainerBuild.Proofs.Json.Scalars

/-!
# Values of JSON read back

The text of whatever value is written is spelled as the grammar says, so reading finds it with nothing
left. What a decoder makes of a written text is what it makes of the value.
-/

namespace ContainerBuild
namespace Json

/-! ### Lists and objects -/

theorem renderItems_cons_cons (item next : Json) (items : List Json) :
    renderItems (item :: next :: items) = render item ++ 0x2C :: renderItems (next :: items) := by
  rw [renderItems]
  exact nofun

theorem renderMembers_cons_cons (key : String) (value : Json) (next : String × Json)
    (members : List (String × Json)) :
    renderMembers ((key, value) :: next :: members) =
      quote key ++ 0x3A :: (render value ++ 0x2C :: renderMembers (next :: members)) := by
  rw [renderMembers]
  exact nofun

theorem Padded.of {α : Type} {P : Bytes → α → Prop} {b : Bytes} {a : α} (h : P b a) :
    Padded P b a := by
  have hp : Padded P ([] ++ b ++ []) a := .intro nofun h nofun
  rwa [List.nil_append, List.append_nil] at hp

theorem joined_renderItems {item : Json} {items : List Json}
    (h : ∀ i ∈ item :: items, Spells (render i) (.ofJson i)) :
    Joined (Padded Spells) (renderItems (item :: items)) (Reading.ofItems (item :: items)) := by
  induction items generalizing item with
  | nil =>
    rw [renderItems]
    exact .last (.of (h item List.mem_cons_self))
  | cons next items ih =>
    rw [renderItems_cons_cons]
    have hrest := ih fun i hi => h i (List.mem_cons_of_mem _ hi)
    exact .more (.of (h item List.mem_cons_self)) hrest

theorem joined_renderMembers {member : String × Json} {members : List (String × Json)}
    (h : ∀ m ∈ member :: members, Spells (render m.2) (.ofJson m.2)) :
    Joined (SpellsMember Spells) (renderMembers (member :: members))
      (Reading.ofMembers (member :: members)) := by
  have spelled : SpellsMember Spells (quote member.1 ++ 0x3A :: render member.2)
      (some member.1, .ofJson member.2) :=
    .intro (.of (spellsString_quote member.1)) (.of (h member List.mem_cons_self))
  induction members generalizing member with
  | nil =>
    rw [renderMembers]
    exact .last spelled
  | cons next members ih =>
    have hrest := ih (fun m hm => h m (List.mem_cons_of_mem _ hm))
      (.intro (.of (spellsString_quote next.1)) (.of (h next (by simp))))
    have hall := Joined.more spelled hrest
    rw [List.append_assoc, List.cons_append, ← renderMembers_cons_cons] at hall
    exact hall

theorem spells_renderArray {items : List Json} (h : ∀ i ∈ items, Spells (render i) (.ofJson i)) :
    Spells (render (.array items)) (.ofJson (.array items)) := by
  rw [render, Reading.ofJson]
  cases items with
  | nil => exact .emptyArray nofun
  | cons item items => exact .array (joined_renderItems h)

theorem spells_renderObject {members : List (String × Json)}
    (h : ∀ m ∈ members, Spells (render m.2) (.ofJson m.2)) :
    Spells (render (.object members)) (.ofJson (.object members)) := by
  rw [render, Reading.ofJson]
  cases members with
  | nil => exact .emptyObject nofun
  | cons member members => exact .object (joined_renderMembers h)

/-! ### Whole values -/

/-- Every value is spelled by what is written of it. -/
theorem spells_render : ∀ j : Json, Spells (render j) (.ofJson j)
  | .null => .word (by simp [words, Reading.ofJson])
  | .bool true => .word (by simp [words, Reading.ofJson])
  | .bool false => .word (by simp [words, Reading.ofJson])
  | .integer n => .number (spellsNumber_renderInteger n)
  | .text s => .text (spellsString_quote s)
  | .array items => spells_renderArray fun item _ => spells_render item
  | .object members => spells_renderObject fun (_, value) _ => spells_render value
termination_by j => j
decreasing_by
  · have := List.sizeOf_lt_of_mem ‹item ∈ items›
    simp only [array.sizeOf_spec]
    omega
  · have := List.sizeOf_lt_of_mem ‹_ ∈ members›
    simp only [object.sizeOf_spec, Prod.mk.sizeOf_spec] at this ⊢
    omega

/-- A written value begins with a byte that is no blank and closes no list. -/
theorem exists_render (j : Json) : ∃ c b, render j = c :: b ∧ isSpace c = false ∧ c ≠ 0x5D :=
  (spells_render j).exists_cons

theorem scan_render (j : Json) : scan (render j) = (.ofJson j, .ok []) := by
  have nothing : EndsNumber [] := nofun
  have h := (spells_render j).scan nothing.ends
  rwa [List.append_nil] at h

/-- A decoder makes of a written value what it makes of the value. -/
theorem read_render {α : Type} (d : Decoder α) (j : Json) : read d (render j) = d (.ofJson j) := by
  rw [read, scan_render]
  cases h : d (.ofJson j) with
  | ok a =>
    simp only [h, bind, Except.bind]
    rfl
  | error fault => simp only [h, bind, Except.bind]

end Json
end ContainerBuild
