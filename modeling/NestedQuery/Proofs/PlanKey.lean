/- The key of a plan tells the shape of its request: requests that are kept under one key differ only
in their values. -/
import NestedQuery.Plan.Cache
import NestedQuery.Proofs.Rebind

namespace NestedQuery

namespace Text

open Json.Token (hexValue? escapedChar?)

/-- The number that is written in hexadecimal digits. -/
def hexNumber? (digits : List Char) : Option Nat :=
  digits.foldlM (fun code digit => (hexValue? digit).map (code * 16 + ·)) 0

/-- The character that an escaped text starts with, and the rest. -/
def readEscaped : List Char → Option (Char × List Char)
  | '\\' :: 'u' :: a :: b :: c :: d :: rest =>
    (hexNumber? [a, b, c, d]).map fun code => (Char.ofNat code, rest)
  | '\\' :: c :: rest => (escapedChar? c).map (·, rest)
  | c :: rest => some (c, rest)
  | [] => none

theorem hex_control : ∀ n : Fin 32,
    (hex 4 n).toList = ['0', '0', Nat.digitChar (n / 16), Nat.digitChar (n % 16)] := by
  simp only [hex, String.toList_ofList]
  decide

theorem hexNumber_control : ∀ n : Fin 32,
    hexNumber? ['0', '0', Nat.digitChar (n / 16), Nat.digitChar (n % 16)] = some n.val := by
  decide

theorem readEscaped_escape (c : Char) (rest : List Char) :
    readEscaped ((escapeForDocument c).toList ++ rest) = some (c, rest) := by
  unfold escapeForDocument
  split
  · rfl
  · rfl
  · rfl
  · rfl
  · rfl
  · rfl
  · rfl
  · next noQuote noBackslash _ _ _ _ _ =>
      split
      · next control =>
          rw [String.toList_append, hex_control ⟨c.toNat, control⟩]
          change (hexNumber? ['0', '0', Nat.digitChar (c.toNat / 16),
            Nat.digitChar (c.toNat % 16)]).map (fun code => (Char.ofNat code, rest)) = _
          rw [hexNumber_control ⟨c.toNat, control⟩, Option.map_some, Char.ofNat_toNat]
      · rw [String.toList_singleton, List.singleton_append]
        unfold readEscaped
        split
        · next same => exact absurd (List.cons.inj same).1 noBackslash
        · next same => exact absurd (List.cons.inj same).1 noBackslash
        · next same => cases same; rfl
        · next same => cases same

theorem escape_cancel {c d : Char} {x y : List Char}
    (same : (escapeForDocument c).toList ++ x = (escapeForDocument d).toList ++ y) :
    c = d ∧ x = y := by
  have read := readEscaped_escape c x
  rw [same, readEscaped_escape d y] at read
  cases read
  exact ⟨rfl, rfl⟩

theorem escape_ne_quote (c : Char) (x y : List Char) :
    (escapeForDocument c).toList ++ x ≠ '"' :: y := by
  intro same
  have read := readEscaped_escape c x
  rw [same] at read
  cases read
  cases same

theorem escaped_cancel {s t x y : List Char}
    (same : s.flatMap (fun c => (escapeForDocument c).toList) ++ '"' :: x =
      t.flatMap (fun c => (escapeForDocument c).toList) ++ '"' :: y) : s = t ∧ x = y := by
  induction s generalizing t with
  | nil =>
      cases t with
      | nil => exact ⟨rfl, (List.cons.inj same).2⟩
      | cons d later =>
          rw [List.flatMap_cons, List.append_assoc] at same
          exact absurd same.symm (escape_ne_quote d _ _)
  | cons c rest ih =>
      rw [List.flatMap_cons, List.append_assoc] at same
      cases t with
      | nil => exact absurd same (escape_ne_quote c _ _)
      | cons d later =>
          rw [List.flatMap_cons, List.append_assoc] at same
          obtain ⟨rfl, tails⟩ := escape_cancel same
          obtain ⟨rfl, rfl⟩ := ih tails
          exact ⟨rfl, rfl⟩

theorem quotedForDocument_cancel {s t : String} {x y : List Char}
    (same : (quotedForDocument s).toList ++ x = (quotedForDocument t).toList ++ y) :
    s = t ∧ x = y := by
  simp only [quotedForDocument, String.toList_append, String.toList_join, List.flatMap_map,
    List.append_assoc] at same
  obtain ⟨chars, rest⟩ := escaped_cancel (List.append_cancel_left same)
  exact ⟨String.toList_inj.mp chars, rest⟩

end Text

namespace Document

/-- What follows the first item of a list that is closed before `after`. -/
def afterItem (after : List Char) : List Document → List Char
  | [] => ']' :: after
  | item :: rest => ',' :: ((renderItems (item :: rest)).toList ++ ']' :: after)

theorem renderItems_cons_toList (item : Document) (rest : List Document) (after : List Char) :
    (renderItems (item :: rest)).toList ++ ']' :: after =
      (render item).toList ++ afterItem after rest := by
  cases rest with
  | nil => rfl
  | cons next later => simp [renderItems, afterItem]

/-- Items that can be told apart can be told apart in a closed list, up to what follows it. -/
theorem renderItems_cancel {α : Type} {write : α → Document} {Same : α → α → Prop}
    (opens : ∀ a rest after, (write a).render.toList ++ rest ≠ ']' :: after)
    {as bs : List α} {x y : List Char}
    (cancel : ∀ a ∈ as, ∀ b x y, (write a).render.toList ++ x = (write b).render.toList ++ y →
      Same a b ∧ x = y)
    (same : (renderItems (as.map write)).toList ++ ']' :: x =
      (renderItems (bs.map write)).toList ++ ']' :: y) : List.Forall₂ Same as bs ∧ x = y := by
  induction as generalizing bs with
  | nil =>
      cases bs with
      | nil => exact ⟨.nil, (List.cons.inj same).2⟩
      | cons b later =>
          rw [List.map_cons, renderItems_cons_toList] at same
          exact absurd same.symm (opens b _ _)
  | cons a rest ih =>
      obtain ⟨cancelFirst, cancelRest⟩ := List.forall_mem_cons.mp cancel
      rw [List.map_cons, renderItems_cons_toList] at same
      cases bs with
      | nil => exact absurd same (opens a _ _)
      | cons b later =>
          rw [List.map_cons, renderItems_cons_toList] at same
          obtain ⟨sameFirst, tails⟩ := cancelFirst b _ _ same
          cases rest with
          | nil =>
              cases later with
              | nil => exact ⟨.cons sameFirst .nil, (List.cons.inj tails).2⟩
              | cons _ _ => cases tails
          | cons next others =>
              cases later with
              | nil => cases tails
              | cons other more =>
                  obtain ⟨sameRest, rfl⟩ := @ih (other :: more) cancelRest (List.cons.inj tails).2
                  exact ⟨.cons sameFirst sameRest, rfl⟩

end Document

namespace Json

theorem itemsToDocuments_eq_map (items : List Json) :
    itemsToDocuments items = items.map toDocument := by
  induction items with
  | nil => rfl
  | cons item rest ih => rw [itemsToDocuments, ih, List.map_cons]

end Json

namespace Request

theorem sameShapes_of_forall₂ {rs ss : List (String × Request)}
    (same : List.Forall₂ (fun r s => r.1 = s.1 ∧ SameShape r.2 s.2) rs ss) : SameShapes rs ss := by
  induction same with
  | nil => trivial
  | cons first _ ih => exact ⟨first.1, first.2, ih⟩

def relationShape (r : String × Request) : Json := .list [.text r.1, r.2.shape]

theorem relationShapes_eq_map (relations : List (String × Request)) :
    relationShapes relations = relations.map relationShape := by
  induction relations with
  | nil => rfl
  | cons r rest ih =>
      rw [relationShapes, ih, List.map_cons]
      rfl

def fieldsShape : Option (List String) → Json
  | some names => .list (names.map .text)
  | none => .null

end Request

namespace Json

theorem render_list_toList (items : List Json) (after : List Char) :
    (Json.list items).render.toList ++ after =
      '[' :: ((Document.renderItems (items.map toDocument)).toList ++ ']' :: after) := by
  simp [render, toDocument, Document.render, itemsToDocuments_eq_map]

theorem render_text_cancel {s t : String} {x y : List Char}
    (same : (Json.text s).toDocument.render.toList ++ x =
      (Json.text t).toDocument.render.toList ++ y) : s = t ∧ x = y :=
  Text.quotedForDocument_cancel same

theorem render_bool_cancel {a b : Bool} {x y : List Char}
    (same : (Json.bool a).render.toList ++ x = (Json.bool b).render.toList ++ y) :
    a = b ∧ x = y := by
  cases a <;> cases b
  · exact ⟨rfl, List.append_cancel_left same⟩
  · cases same
  · cases same
  · exact ⟨rfl, List.append_cancel_left same⟩

end Json

namespace Request

theorem fieldsShape_cancel {f g : Option (List String)} {x y : List Char}
    (same : (fieldsShape f).render.toList ++ x = (fieldsShape g).render.toList ++ y) :
    f = g ∧ x = y := by
  cases f with
  | none =>
      cases g with
      | none => exact ⟨rfl, List.append_cancel_left same⟩
      | some names =>
          rw [fieldsShape, fieldsShape, Json.render_list_toList] at same
          cases same
  | some names =>
      cases g with
      | none =>
          rw [fieldsShape, fieldsShape, Json.render_list_toList] at same
          cases same
      | some others =>
          rw [fieldsShape, fieldsShape, Json.render_list_toList, Json.render_list_toList,
            List.map_map, List.map_map] at same
          have opens : ∀ (name : String) (rest after : List Char),
              (Json.text name).toDocument.render.toList ++ rest ≠ ']' :: after := by
            intro name rest after closed
            simp [Json.toDocument, Document.render, Document.renderText, Text.quotedForDocument]
              at closed
          obtain ⟨equal, rfl⟩ := Document.renderItems_cancel opens
            (fun _ _ _ _ _ => Json.render_text_cancel) (List.cons.inj same).2
          exact ⟨congrArg some (List.forall₂_eq_eq_eq ▸ equal), rfl⟩

theorem shape_toList (f : Option (List String)) (rs : List (String × Request)) (q : Query)
    (after : List Char) :
    (shape ⟨f, rs, q⟩).render.toList ++ after =
      ('\x7b' :: (Document.renderText (some "fields")).toList ++ [':']) ++
        ((fieldsShape f).render.toList ++
          ((',' :: (Document.renderText (some "paginated")).toList ++ [':']) ++
            ((Json.bool q.isPaginated).render.toList ++
              ((',' :: (Document.renderText (some "relations")).toList ++ [':']) ++
                '[' :: ((Document.renderItems (rs.map (Json.toDocument ∘ relationShape))).toList ++
                  ']' :: '\x7d' :: after))))) := by
  cases f <;>
    simp [shape, fieldsShape, Json.render, Json.toDocument, Json.membersToDocuments,
      Document.render, Document.renderMembers, Json.itemsToDocuments_eq_map,
      relationShapes_eq_map]

theorem relationShape_opens (r : String × Request) (rest after : List Char) :
    ((Json.toDocument ∘ relationShape) r).render.toList ++ rest ≠ ']' :: after := by
  intro closed
  cases (Json.render_list_toList [.text r.1, r.2.shape] rest).symm.trans closed

mutual

/-- The rendered shape of a request ends where it says, and tells the shape. -/
theorem shape_cancel : ∀ (r s : Request) {x y : List Char},
    r.shape.render.toList ++ x = s.shape.render.toList ++ y → r.SameShape s ∧ x = y
  | ⟨f, rs, q⟩, ⟨g, ss, p⟩, x, y, same => by
      rw [shape_toList, shape_toList] at same
      obtain ⟨fields, same⟩ := fieldsShape_cancel (List.append_cancel_left same)
      obtain ⟨paginated, same⟩ := Json.render_bool_cancel (List.append_cancel_left same)
      have same := (List.cons.inj (List.append_cancel_left same)).2
      obtain ⟨relations, same⟩ :=
        Document.renderItems_cancel relationShape_opens (relationShapes_cancel rs) same
      exact ⟨⟨fields, paginated, sameShapes_of_forall₂ relations⟩, (List.cons.inj same).2⟩

theorem relationShapes_cancel : ∀ (rs : List (String × Request)), ∀ r ∈ rs, ∀ s (x y : List Char),
    (relationShape r).render.toList ++ x = (relationShape s).render.toList ++ y →
      (r.1 = s.1 ∧ SameShape r.2 s.2) ∧ x = y
  | [] => nofun
  | (name, r) :: rest => by
      refine List.forall_mem_cons.mpr ⟨?_, relationShapes_cancel rest⟩
      rintro ⟨other, s⟩ x y same
      simp only [relationShape, Json.render_list_toList, List.map_cons, List.map_nil,
        Document.renderItems_cons_toList, Document.afterItem] at same
      obtain ⟨names, same⟩ := Json.render_text_cancel (List.cons.inj same).2
      obtain ⟨shapes, same⟩ := shape_cancel r s (List.cons.inj same).2
      exact ⟨⟨names, shapes⟩, (List.cons.inj same).2⟩

end

end Request

/-- Only requests of one shape share a key. -/
theorem PlanKey.sameShape {format other : String} {plural many : Bool} {r s : Request}
    (same : PlanKey.ofRequest format plural r = PlanKey.ofRequest other many s) :
    format = other ∧ plural = many ∧ r.SameShape s := by
  obtain ⟨formats, plurals, shapes⟩ := PlanKey.mk.inj same
  have rendered : r.shape.render.toList ++ [] = s.shape.render.toList ++ [] := by rw [shapes]
  exact ⟨formats, plurals, (Request.shape_cancel r s rendered).1⟩

end NestedQuery
