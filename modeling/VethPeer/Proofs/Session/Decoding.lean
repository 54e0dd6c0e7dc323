import Mathlib
import VethPeer.Session.Basic

/-! The payloads of a reply are decoded together, up to the first that makes no sense. -/
namespace VethPeer

variable {α β : Type} {decode : Bytes → Except Fault α} {b payload : Bytes}
  {bs before after : List Bytes} {x : α} {xs : List α} {fault : Fault}
  {stop : Stop Fault} {reply : Except (Stop Fault) (List Bytes)}

theorem exists_mem_of_forall₂ {related : β → α → Prop} {y : β} {ys : List β}
    (h : List.Forall₂ related ys xs) (hy : y ∈ ys) : ∃ x ∈ xs, related y x := by
  induction h with
  | nil => cases hy
  | cons hfirst _ ih =>
    rcases List.mem_cons.mp hy with rfl | hy
    · exact ⟨_, List.mem_cons_self, hfirst⟩
    · obtain ⟨x, hx, hrelated⟩ := ih hy
      exact ⟨x, List.mem_cons_of_mem _ hx, hrelated⟩

/-- The payloads are decoded one by one, in their order. -/
abbrev DecodeTo (decode : Bytes → Except Fault α) : List Bytes → List α → Prop :=
  List.Forall₂ fun b x => decode b = .ok x

/-- What spoils a reply first: that there is none, or the first payload that makes no sense. -/
inductive SpoiledBy (decode : Bytes → Except Fault α) :
    Except (Stop Fault) (List Bytes) → Stop Fault → Prop
  | failed (stop : Stop Fault) : SpoiledBy decode (.error stop) stop
  | undecodable {before after : List Bytes} {payload : Bytes} {xs : List α} {fault : Fault}
      (decodable : DecodeTo decode before xs) (fails : decode payload = .error fault) :
      SpoiledBy decode (.ok (before ++ payload :: after)) (.fault fault)

theorem mapM_cons_of_ok (h : decode b = .ok x) (bs : List Bytes) :
    (b :: bs).mapM decode = (bs.mapM decode).map (x :: ·) := by
  rw [List.mapM_cons, h]
  cases bs.mapM decode <;> rfl

theorem DecodeTo.mapM_eq (h : DecodeTo decode bs xs) : bs.mapM decode = .ok xs := by
  induction h with
  | nil => rfl
  | cons hb _ ih =>
    rw [mapM_cons_of_ok hb, ih]
    rfl

theorem mapM_of_undecodable (decodable : DecodeTo decode before xs)
    (fails : decode payload = .error fault) (after : List Bytes) :
    (before ++ payload :: after).mapM decode = .error fault := by
  induction decodable with
  | nil =>
    rw [List.nil_append, List.mapM_cons, fails]
    rfl
  | cons hb _ ih =>
    rw [List.cons_append, mapM_cons_of_ok hb, ih]
    rfl

theorem Session.decodeAll_ok (decode : Bytes → Except Fault α) (bs : List Bytes) :
    decodeAll decode (.ok bs) = (bs.mapM decode).mapError .fault := rfl

theorem DecodeTo.decodeAll_eq (h : DecodeTo decode bs xs) :
    Session.decodeAll decode (.ok bs) = .ok xs := by
  rw [Session.decodeAll_ok, h.mapM_eq]
  rfl

theorem SpoiledBy.decodeAll_eq (h : SpoiledBy decode reply stop) :
    Session.decodeAll decode reply = .error stop := by
  cases h with
  | failed => rfl
  | undecodable decodable fails =>
    rw [Session.decodeAll_ok, mapM_of_undecodable decodable fails]
    rfl

/-- No payload breaks the program off. -/
theorem SpoiledBy.eq_overflow (h : SpoiledBy decode reply .overflow) :
    reply = .error .overflow := by
  cases h
  rfl

theorem decodes_or_spoiled (decode : Bytes → Except Fault α)
    (reply : Except (Stop Fault) (List Bytes)) :
    (∃ bs xs, reply = .ok bs ∧ DecodeTo decode bs xs) ∨ ∃ stop, SpoiledBy decode reply stop := by
  cases reply with
  | error stop => exact .inr ⟨stop, .failed stop⟩
  | ok bs =>
    induction bs with
    | nil => exact .inl ⟨[], [], rfl, .nil⟩
    | cons b bs ih =>
      cases hb : decode b with
      | error fault => exact .inr ⟨_, .undecodable .nil hb⟩
      | ok x =>
        rcases ih with ⟨bs', xs, hbs, decodable⟩ | ⟨stop, spoiled⟩
        · cases hbs
          exact .inl ⟨b :: bs, x :: xs, rfl, .cons hb decodable⟩
        · cases spoiled with
          | undecodable decodable fails =>
            exact .inr ⟨_, .undecodable (.cons hb decodable) fails⟩

end VethPeer
