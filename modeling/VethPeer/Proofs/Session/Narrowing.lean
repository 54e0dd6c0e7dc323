import Mathlib
import VethPeer.Proofs.Inventory.Narrowing
import VethPeer.Proofs.Session.Serving
import VethPeer.Session.Survey

/-! Asking an honest kernel only for what a query can be about does not change what is found. -/
namespace VethPeer

open Wire

variable {t : Tables} {q : Query} {s : Session} {i : Interface} {ds ds' rest : List Delivery}
  {entries : List AddressEntry} {r : Request}

namespace Query

/-- What a survey asks about links. -/
def linkQuestion (q : Query) : Question :=
  match q.index with
  | some index => .link index
  | none => .links

/-- The index that a survey asks addresses for, zero for all. -/
def addressIndex (q : Query) : UInt32 := (q.index.map (·.toUInt32)).getD 0

def addressQuestion (q : Query) : Question := .addresses q.family.code q.addressIndex

theorem index_of_admits {index : Int32} (h : q.admits i = true) (hq : q.index = some index) :
    index = i.index := by
  simp only [admits, hq, Option.all_some, Bool.and_eq_true, decide_eq_true_eq] at h
  exact h.1

end Query

namespace Tables

def linksFor (t : Tables) (q : Query) : List LinkEntry :=
  match q.index with
  | some index => (t.links.find? (·.index = index)).toList
  | none => t.links

/-- The inventory of a survey to which the kernel listed these address entries. -/
def surveyed (t : Tables) (q : Query) (entries : List AddressEntry) : Inventory where
  interfaces := (t.linksFor q).map (·.interface)
  assignments :=
    if q.isLinkOnly then []
    else (entries.filter fun e => (q.index.map (·.toUInt32)).all (· = e.index)).map (·.assignment)

theorem filter_index_eq_find? {links : List LinkEntry} (h : (links.map (·.index)).Nodup)
    (index : Int32) :
    links.filter (·.index = index) = (links.find? (·.index = index)).toList := by
  induction links with
  | nil => rfl
  | cons e links ih =>
    rw [List.map_cons, List.nodup_cons] at h
    by_cases he : e.index = index
    · have hnone : links.filter (·.index = index) = [] := by
        rw [List.filter_eq_nil_iff]
        intro e' he' hi
        have hi' : e'.index = index := by simpa using hi
        exact h.1 (he ▸ hi' ▸ List.mem_map_of_mem he')
      simp [he, hnone]
    · simp [he, ih h.2]

theorem filter_admits_linksFor (distinct : (t.links.map (·.index)).Nodup) :
    ((t.linksFor q).map (·.interface)).filter q.admits =
      (t.links.map (·.interface)).filter q.admits := by
  cases hq : q.index with
  | none => simp [linksFor, hq]
  | some index =>
    have hl : t.linksFor q = t.links.filter (·.index = index) := by
      simp [linksFor, hq, filter_index_eq_find? distinct]
    rw [hl, List.filter_map, List.filter_map, List.filter_filter]
    congr 1
    apply List.filter_congr
    intro e _
    -- an interface that is admitted has the index that is asked for
    cases ha : q.admits e.interface with
    | false => simp [ha]
    | true =>
      have hi : index = e.index := Query.index_of_admits ha hq
      simp [ha, hi]

theorem owner_iff (e : AddressEntry) (index : Int32) :
    e.assignment.owner = index ↔ e.index = index.toUInt32 := by
  constructor
  · intro h
    rw [← h]
    exact (UInt32.toUInt32_toInt32 _).symm
  · intro h
    simp [AddressEntry.assignment, h]

theorem inFamily_assignment (e : AddressEntry) :
    Inventory.inFamily q e.assignment =
      decide (q.family.code = 0 ∨ e.family = q.family.code) := by
  simp [Inventory.inFamily, AddressEntry.assignment]

/-- Of an admitted interface the kernel lists every address in the family, whether or not it
heeds the index, and none of these is dropped afterwards. -/
theorem Selects.filter_owner (h : t.Selects q.family.code q.addressIndex entries)
    (hi : q.admits i = true) :
    (entries.filter fun e => (q.index.map (·.toUInt32)).all (· = e.index)).filter
        (fun e => e.assignment.owner = i.index) =
      (t.ofFamily q.family.code).filter fun e => e.assignment.owner = i.index := by
  have hindex : ∀ e : AddressEntry, e.assignment.owner = i.index →
      (q.index.map (·.toUInt32)).all (· = e.index) = true ∧
        (q.addressIndex = 0 ∨ e.index = q.addressIndex) := by
    intro e he
    rw [owner_iff] at he
    cases hq : q.index with
    | none => simp [Query.addressIndex, hq]
    | some index => simp [Query.addressIndex, hq, he, Query.index_of_admits hi hq]
  calc (entries.filter fun e => (q.index.map (·.toUInt32)).all (· = e.index)).filter
        (fun e => e.assignment.owner = i.index)
      = (entries.filter fun e => q.addressIndex = 0 ∨ e.index = q.addressIndex).filter
          (fun e => e.assignment.owner = i.index) := by
        rw [List.filter_filter, List.filter_filter]
        apply List.filter_congr
        intro e _
        by_cases he : e.assignment.owner = i.index
        · simp [hindex e he]
        · simp [he]
    _ = ((t.ofFamily q.family.code).filter fun e =>
          q.addressIndex = 0 ∨ e.index = q.addressIndex).filter
          (fun e => e.assignment.owner = i.index) := by rw [h.complete]
    _ = (t.ofFamily q.family.code).filter fun e => e.assignment.owner = i.index := by
        rw [List.filter_filter]
        apply List.filter_congr
        intro e _
        by_cases he : e.assignment.owner = i.index
        · simp [hindex e he]
        · simp [he]

theorem narrows_surveyed (distinct : (t.links.map (·.index)).Nodup)
    (h : q.isLinkOnly = false → t.Selects q.family.code q.addressIndex entries) :
    Inventory.Narrows q (t.surveyed q entries) t.inventory where
  interfaces := filter_admits_linksFor distinct
  owned := by
    intro hl i hi
    have hfamily : (t.ofFamily q.family.code).map (·.assignment) =
        (t.addresses.map (·.assignment)).filter (Inventory.inFamily q) := by
      rw [List.filter_map, ofFamily]
      congr 1
      apply List.filter_congr
      intro e _
      exact (inFamily_assignment e).symm
    calc (t.surveyed q entries).assignmentsOf i.index
        = ((entries.filter fun e => (q.index.map (·.toUInt32)).all (· = e.index)).filter
            (fun e => e.assignment.owner = i.index)).map (·.assignment) := by
          simp only [surveyed, hl, Inventory.assignmentsOf, Bool.false_eq_true, if_false,
            List.filter_map]
          rfl
      _ = ((t.ofFamily q.family.code).filter fun e => e.assignment.owner = i.index).map
            (·.assignment) := by rw [(h hl).filter_owner hi]
      _ = ((t.ofFamily q.family.code).map (·.assignment)).filter (·.owner = i.index) := by
          rw [List.filter_map]
          rfl
      _ = (t.inventory.assignmentsOf i.index).filter (Inventory.inFamily q) := by
          rw [hfamily, List.filter_comm]
          rfl

end Tables

namespace Session

def linkRequestFor (q : Query) : Request :=
  match q.index with
  | some index => linkRequest index
  | none => linksRequest

def addressRequestFor (q : Query) : Request := addressesRequest q.family.code q.addressIndex

@[simp] theorem after_sent (s : Session) (r : Request) (rest : List Delivery) :
    (s.after r rest).sent = s.message r :: s.sent := rfl

@[simp] theorem after_deliveries (s : Session) (r : Request) (rest : List Delivery) :
    (s.after r rest).deliveries = rest := rfl

theorem ofMessage_linkRequestFor (s : Session) (q : Query) :
    Question.ofMessage (s.message (linkRequestFor q)) = some q.linkQuestion := by
  cases hq : q.index with
  | none => simpa [linkRequestFor, Query.linkQuestion, hq] using ofMessage_links s
  | some index => simpa [linkRequestFor, Query.linkQuestion, hq] using ofMessage_link s index

theorem surveyLinks_of_answer (hs : s.sendFault s.nextSeq = none) (hd : s.deliveries = ds ++ rest)
    (h : t.Answers s.nextSeq ds q.linkQuestion) :
    s.surveyLinks q =
      (.ok ((t.linksFor q).map (·.interface)), s.after (linkRequestFor q) rest) := by
  cases hq : q.index with
  | none =>
    simp only [Query.linkQuestion, hq] at h
    simp [surveyLinks, links_of_isDump hs hd h, Tables.linksFor, linkRequestFor, hq, Except.map]
  | some index =>
    simp only [Query.linkQuestion, hq] at h
    simp [surveyLinks, link?_of_answer hs hd h, Tables.linksFor, linkRequestFor, hq, Except.map]

theorem surveyAddresses_of_answer (hl : q.isLinkOnly = false) (hs : s.sendFault s.nextSeq = none)
    (hd : s.deliveries = ds ++ rest) (h : t.Answers s.nextSeq ds q.addressQuestion) :
    ∃ entries, t.Selects q.family.code q.addressIndex entries ∧
      s.surveyAddresses q =
        (.ok (t.surveyed q entries).assignments, s.after (addressRequestFor q) rest) := by
  obtain ⟨entries, hsel, hdump⟩ := h
  refine ⟨entries, hsel, ?_⟩
  have ha := addresses_of_isDump hs hd hdump q.family.code q.addressIndex
  have hi : (q.index.map (·.toUInt32)).getD 0 = q.addressIndex := rfl
  simp [surveyAddresses, hl, hi, ha, Tables.surveyed, addressRequestFor, Except.map]

/-- The link request is sent whatever comes of it. -/
theorem surveyLinks_sent (hs : s.sendFault s.nextSeq = none) (q : Query) :
    ∃ rest, (s.surveyLinks q).2 = s.after (linkRequestFor q) rest := by
  cases hq : q.index with
  | none =>
    refine ⟨(s.dump linksRequest "link dump").2.deliveries, ?_⟩
    simp only [surveyLinks, hq, linkRequestFor]
    change (s.dump linksRequest "link dump").2 = _
    rw [dump, exchange_eq hs]
    rfl
  | some index =>
    refine ⟨(s.request (linkRequest index) s!"getting link {index.toInt}").2.deliveries, ?_⟩
    simp only [surveyLinks, hq, linkRequestFor]
    change (s.request (linkRequest index) s!"getting link {index.toInt}").2 = _
    rw [request, exchange_eq hs]
    rfl

/-- So is the address request, unless only links count. -/
theorem surveyAddresses_sent (hl : q.isLinkOnly = false) (hs : s.sendFault s.nextSeq = none) :
    (s.surveyAddresses q).2.sent = s.message (addressRequestFor q) :: s.sent := by
  simp only [surveyAddresses, hl, Bool.false_eq_true, if_false]
  change (s.dump (addressRequestFor q) "address dump").2.sent = _
  rw [dump, exchange_eq hs]
  rfl

theorem survey_of_links {interfaces : List Interface} {s' : Session}
    (h : s.surveyLinks q = (.ok interfaces, s')) :
    s.survey q = ((s'.surveyAddresses q).1.map fun assignments => ⟨interfaces, assignments⟩,
      (s'.surveyAddresses q).2) := by
  simp only [survey, h]

theorem survey_sent (hs : s.sendFault s.nextSeq = none)
    (hs' : s.sendFault (s.nextSeq + 1) = none) (q : Query) :
    ∃ later, (s.survey q).2.sent = later ++ s.message (linkRequestFor q) :: s.sent := by
  obtain ⟨rest, hrest⟩ := surveyLinks_sent hs q
  rcases hl : s.surveyLinks q with ⟨outcome, s'⟩
  rw [hl] at hrest
  obtain rfl : s' = s.after (linkRequestFor q) rest := hrest
  cases outcome with
  | error fault => exact ⟨[], by simp [survey, hl]⟩
  | ok interfaces =>
    rw [survey_of_links hl]
    cases ho : q.isLinkOnly with
    | true => exact ⟨[], by simp [surveyAddresses, ho]⟩
    | false => exact ⟨[_], surveyAddresses_sent ho hs'⟩

theorem survey_sent_of_answer (hl : q.isLinkOnly = false) (hs : s.sendFault s.nextSeq = none)
    (hs' : s.sendFault (s.nextSeq + 1) = none) (hd : s.deliveries = ds ++ rest)
    (h : t.Answers s.nextSeq ds q.linkQuestion) :
    (s.survey q).2.sent = (s.after (linkRequestFor q) rest).message (addressRequestFor q) ::
      s.message (linkRequestFor q) :: s.sent := by
  rw [survey_of_links (surveyLinks_of_answer hs hd h)]
  exact surveyAddresses_sent hl hs'

theorem answers_message {answer : Bytes → List Delivery} {question : Question}
    (honest : t.Honest answer) (h : Question.ofMessage (s.message r) = some question) :
    t.Answers s.nextSeq (answer (s.message r)) question := by
  have ha := honest _ _ h
  rwa [ofBytes_message] at ha

/-- The survey of an honest kernel's namespace finds what narrows the kernel's tables. -/
theorem survey_of_honest {answer : Bytes → List Delivery} {messages : List Bytes}
    (honest : t.Honest answer) (works : s.sendFault s.nextSeq = none)
    (again : s.sendFault (s.nextSeq + 1) = none)
    (sent : (s.survey q).2.sent = messages.reverse ++ s.sent)
    (answered : s.deliveries = messages.flatMap answer ++ rest) :
    ∃ entries, (q.isLinkOnly = false → t.Selects q.family.code q.addressIndex entries) ∧
      (s.survey q).1 = .ok (t.surveyed q entries) := by
  obtain ⟨later, hlater⟩ := survey_sent works again q
  obtain rfl : messages = s.message (linkRequestFor q) :: later.reverse := by
    rw [sent, List.append_cons, List.append_left_inj] at hlater
    simpa using congrArg List.reverse hlater
  rw [List.flatMap_cons, List.append_assoc] at answered
  have hlinks := surveyLinks_of_answer works answered
    (answers_message honest (ofMessage_linkRequestFor s q))
  rw [survey_of_links hlinks] at hlater ⊢
  cases hl : q.isLinkOnly with
  | true => exact ⟨[], by simp, by simp [surveyAddresses, hl, Tables.surveyed, Except.map]⟩
  | false =>
    generalize hrest : later.reverse.flatMap answer ++ rest = rest' at answered hlinks hlater ⊢
    have hworks : (s.after (linkRequestFor q) rest').sendFault (s.nextSeq + 1) = none := again
    -- the second message is the last
    rw [surveyAddresses_sent hl hworks, after_sent] at hlater
    have heq : [(s.after (linkRequestFor q) rest').message (addressRequestFor q)] = later :=
      List.append_cancel_right hlater
    subst heq
    have hdeliveries : (s.after (linkRequestFor q) rest').deliveries =
        answer ((s.after (linkRequestFor q) rest').message (addressRequestFor q)) ++ rest := by
      simpa using hrest.symm
    obtain ⟨entries, hsel, haddresses⟩ := surveyAddresses_of_answer hl hworks hdeliveries
      (answers_message honest (ofMessage_addresses _ q.family.code q.addressIndex))
    refine ⟨entries, fun _ => hsel, ?_⟩
    rw [haddresses]
    rfl

/-- Over a socket that sends both requests and on which an honest kernel answers them, the survey of a
namespace with distinct interface indices succeeds, and it is searched as the full tables are. -/
theorem survey_searched_as_inventory {answer : Bytes → List Delivery} {messages : List Bytes}
    (distinct : (t.links.map (·.index)).Nodup) (honest : t.Honest answer)
    (works : s.sendFault s.nextSeq = none) (again : s.sendFault (s.nextSeq + 1) = none)
    (sent : (s.survey q).2.sent = messages.reverse ++ s.sent)
    (answered : s.deliveries = messages.flatMap answer ++ rest) :
    ∃ inv, (s.survey q).1 = .ok inv ∧ inv.locate q = t.inventory.locate q ∧
      inv.list q = t.inventory.list q := by
  obtain ⟨entries, hsel, hsurvey⟩ := survey_of_honest honest works again sent answered
  have hn := Tables.narrows_surveyed distinct hsel
  exact ⟨t.surveyed q entries, hsurvey, hn.locate_eq, hn.list_eq⟩

/-- An IPv4 address of the second interface is asked for. -/
def vethQuery : Query := { family := .inet, index := some 2 }

def vethMessages : List Bytes := [
  ({ portId := 7 } : Session).message (linkRequestFor vethQuery),
  ({ portId := 7, nextSeq := 2 } : Session).message (addressRequestFor vethQuery)]

def vethSession : Session := { portId := 7, deliveries := vethMessages.flatMap Rows.veth.answer }

theorem survey_searched_as_inventory_veth :
    ∃ inv, (vethSession.survey vethQuery).1 = .ok inv ∧
      inv.locate vethQuery = some ⟨2, some 9⟩ ∧
      inv.list vethQuery = Rows.veth.tables.inventory.list vethQuery := by
  have honest := Rows.veth_wellFormed.honest
  have sent : (vethSession.survey vethQuery).2.sent = vethMessages.reverse ++ vethSession.sent :=
    survey_sent_of_answer rfl rfl rfl rfl
      (answers_message honest (ofMessage_linkRequestFor { portId := 7 } vethQuery))
  have answered : vethSession.deliveries = vethMessages.flatMap Rows.veth.answer ++ [] :=
    (List.append_nil _).symm
  have distinct : (Rows.veth.tables.links.map (·.index)).Nodup := by decide
  obtain ⟨inv, hinv, hlocate, hlist⟩ :=
    survey_searched_as_inventory distinct honest rfl rfl sent answered
  exact ⟨inv, hinv, hlocate.trans rfl, hlist⟩

end Session
end VethPeer
