import EntityQuery.Json.Basic
import EntityQuery.Proofs.Entries

/-!
# Documents with members in another order

The members of an object have no order that counts: a document says the same when the members of
any of its objects are written in another order. Such a document is as deep as the first one, and
under every name the objects of both have members that say the same.
-/

namespace EntityQuery

namespace Entries

variable {α : Type}

/-- In lists with every name once, the order makes no difference to what is found. -/
theorem get?_of_perm {entries others : Entries α} (h : entries.Perm others)
    (hnodup : (entries.map Prod.fst).Nodup) (key : String) :
    others.get? key = entries.get? key := by
  have hothers : (others.map Prod.fst).Nodup := (h.map Prod.fst).nodup_iff.mp hnodup
  cases hfound : entries.get? key with
  | some content => exact get?_of_mem hothers (h.mem_iff.mp (mem_of_get? hfound))
  | none =>
    rw [get?_eq_none_iff] at hfound ⊢
    exact fun entry hentry => hfound entry (h.mem_iff.mpr hentry)

/-- Whatever the order in which the entries of a canonical map are put together, the map is the
same. -/
theorem Ordered.ofList_of_perm {entries others : Entries α} (hordered : entries.Ordered)
    (h : entries.Perm others) : ofList others = entries := by
  have hothers : (others.map Prod.fst).Nodup := (h.map Prod.fst).nodup_iff.mp hordered.nodup
  refine (ordered_ofList others).ext hordered fun key => ?_
  rw [get?_ofList hothers, get?_of_perm h hordered.nodup]

end Entries

namespace Json

mutual

/-- Another document has the same parts, but the members of its objects may stand in another
order. -/
def Rearranged : Json → Json → Prop
  | .null, other => other = .null
  | .bool b, other => other = .bool b
  | .int n, other => other = .int n
  | .float x, other => other = .float x
  | .string text, other => other = .string text
  | .array items, other => ∃ others, other = .array others ∧ RearrangedItems items others
  | .object members, other =>
    ∃ inOrder others, other = .object others ∧ inOrder.Perm others ∧
      RearrangedMembers members inOrder
termination_by structural document => document

/-- Other items have the same parts one by one. -/
def RearrangedItems : List Json → List Json → Prop
  | [], others => others = []
  | item :: items, others =>
    ∃ first rest, others = first :: rest ∧ item.Rearranged first ∧ RearrangedItems items rest
termination_by structural items => items

/-- Other members have the same names and the same parts one by one. -/
def RearrangedMembers : List (String × Json) → List (String × Json) → Prop
  | [], others => others = []
  | (name, member) :: members, others =>
    ∃ first rest, others = (name, first) :: rest ∧ member.Rearranged first ∧
      RearrangedMembers members rest
termination_by structural members => members

end

mutual

/-- A document has its own parts. -/
theorem Rearranged.refl : ∀ document : Json, document.Rearranged document
  | .null | .bool _ | .int _ | .float _ | .string _ => rfl
  | .array items => ⟨items, rfl, RearrangedItems.refl items⟩
  | .object members => ⟨members, members, rfl, .rfl, RearrangedMembers.refl members⟩

/-- So do items. -/
theorem RearrangedItems.refl : ∀ items : List Json, RearrangedItems items items
  | [] => rfl
  | item :: items => ⟨item, items, rfl, Rearranged.refl item, RearrangedItems.refl items⟩

/-- So do members. -/
theorem RearrangedMembers.refl : ∀ members : List (String × Json),
    RearrangedMembers members members
  | [] => rfl
  | (_, member) :: members =>
    ⟨member, members, rfl, Rearranged.refl member, RearrangedMembers.refl members⟩

end

/-- The order of members makes no difference to how deep they are. -/
theorem depthMembers_of_perm {members others : List (String × Json)} (h : members.Perm others) :
    depthMembers others = depthMembers members := by
  induction h with
  | nil => rfl
  | cons member _ ih => simp only [depthMembers, ih]
  | swap first second rest => exact Nat.max_left_comm _ _ _
  | trans _ _ ih ih' => exact ih'.trans ih

mutual

/-- Rearranged documents are equally deep. -/
theorem Rearranged.depth_eq : ∀ {document other : Json}, document.Rearranged other →
    other.depth = document.depth
  | .null, _, h | .bool _, _, h | .int _, _, h | .float _, _, h | .string _, _, h => by
    obtain rfl := h
    rfl
  | .array items, _, h => by
    obtain ⟨others, rfl, hitems⟩ := h
    exact congrArg (· + 1) hitems.depth_eq
  | .object members, _, h => by
    obtain ⟨inOrder, others, rfl, hperm, hmembers⟩ := h
    exact congrArg (· + 1) ((depthMembers_of_perm hperm).trans hmembers.depth_eq)

/-- So are items. -/
theorem RearrangedItems.depth_eq : ∀ {items others : List Json}, RearrangedItems items others →
    depthItems others = depthItems items
  | [], _, h => by
    obtain rfl := h
    rfl
  | item :: items, _, h => by
    obtain ⟨first, rest, rfl, hfirst, hrest⟩ := h
    simp only [depthItems, hfirst.depth_eq, hrest.depth_eq]

/-- So are members. -/
theorem RearrangedMembers.depth_eq : ∀ {members others : List (String × Json)},
    RearrangedMembers members others → depthMembers others = depthMembers members
  | [], _, h => by
    obtain rfl := h
    rfl
  | (_, member) :: members, _, h => by
    obtain ⟨first, rest, rfl, hfirst, hrest⟩ := h
    simp only [depthMembers, hfirst.depth_eq, hrest.depth_eq]

end

/-- Rearranged members have the same names. -/
theorem RearrangedMembers.names_eq {members others : List (String × Json)}
    (h : RearrangedMembers members others) : others.map Prod.fst = members.map Prod.fst := by
  induction members generalizing others with
  | nil => rw [show others = [] from h]
  | cons member members ih =>
    obtain ⟨first, rest, rfl, _, hrest⟩ := h
    rw [List.map_cons, List.map_cons, ih hrest]

/-- What is found under a name among rearranged members has the same parts. -/
theorem RearrangedMembers.get? {members others : List (String × Json)}
    (h : RearrangedMembers members others) (name : String) :
    (∀ content, Entries.get? members name = some content →
      ∃ other, Entries.get? others name = some other ∧ content.Rearranged other) ∧
    (Entries.get? members name = none → Entries.get? others name = none) := by
  induction members generalizing others with
  | nil =>
    obtain rfl : others = [] := h
    exact ⟨nofun, fun _ => rfl⟩
  | cons member members ih =>
    obtain ⟨first, rest, rfl, hfirst, hrest⟩ := h
    by_cases hname : member.1 = name
    · refine ⟨fun content hcontent => ?_, fun hnone => ?_⟩
      · rw [Entries.get?, if_pos hname] at hcontent
        obtain rfl := Option.some.inj hcontent
        exact ⟨first, if_pos hname, hfirst⟩
      · rw [Entries.get?, if_pos hname] at hnone
        cases hnone
    · simp only [Entries.get?, if_neg hname]
      exact ih hrest

/-- A rearranged object has every name once if the object has, and under every name it has what
the object has there, rearranged. -/
theorem Rearranged.exists_members {members : List (String × Json)} {other : Json}
    (h : (Json.object members).Rearranged other) (hnodup : (members.map Prod.fst).Nodup) :
    ∃ others, other = .object others ∧ (others.map Prod.fst).Nodup ∧
      (∀ name content, Entries.get? members name = some content →
        ∃ found, Entries.get? others name = some found ∧ content.Rearranged found) ∧
      ∀ name, Entries.get? members name = none → Entries.get? others name = none := by
  obtain ⟨inOrder, others, rfl, hperm, hmembers⟩ := h
  have hinOrder : (inOrder.map Prod.fst).Nodup := hmembers.names_eq ▸ hnodup
  refine ⟨others, rfl, (hperm.map Prod.fst).nodup_iff.mp hinOrder, ?_, ?_⟩
  · intro name content hcontent
    obtain ⟨found, hfound, hsame⟩ := (hmembers.get? name).1 content hcontent
    exact ⟨found, (Entries.get?_of_perm hperm hinOrder name).trans hfound, hsame⟩
  · intro name hnone
    exact (Entries.get?_of_perm hperm hinOrder name).trans ((hmembers.get? name).2 hnone)

end Json

end EntityQuery
