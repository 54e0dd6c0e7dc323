import Mathlib
import VethPeer.Proofs.Session.Calls
import VethPeer.Proofs.Session.Decoding
import VethPeer.Proofs.Session.Narrowing
import VethPeer.Proofs.Session.Replies
import VethPeer.Proofs.Wire.Addresses
import VethPeer.Proofs.Wire.Links

/-! A survey has what all payloads of its two replies say, in their order, or the first failure. -/
namespace VethPeer

open Wire

variable {payload : Bytes} {fault : Fault} {reply : Except (Stop Fault) (List Bytes)}
  {e : AddressEntry} {es : List AddressEntry} {links : List LinkEntry} {q : Query}
  {s s' : Session} {outcome : Except (Stop Fault) Inventory}

namespace Wire.AddressEntry

/-- The index that the payload of an address names its owner by. -/
def ownerOf (payload : Bytes) : Int32 := (UInt32.ofNat (payload.field 4 4)).toInt32

theorem owner_of_decode (h : AddressEntry.decode payload = .ok e) :
    e.assignment.owner = ownerOf payload := by
  rw [ownerOf, ← index_of_decode h]
  rfl

end Wire.AddressEntry

namespace Query

/-- The address is of the interface that is asked for, if one is. -/
def isOwnedBy (q : Query) (payload : Bytes) : Bool :=
  q.index.all (· = AddressEntry.ownerOf payload)

/-- The payloads that a survey decodes of the reply about links: all of the table, or the first of a
reply about one link, unless the kernel knows no such link. -/
def linkPayloads (q : Query) :
    Except (Stop Fault) (List Bytes) → Except (Stop Fault) (List Bytes)
  | .ok payloads => .ok (if q.index.isSome then payloads.take 1 else payloads)
  | .error (.fault (.refused operation errno)) =>
    if q.index.isSome ∧ (errno = .noEntry ∨ errno = .noDevice) then .ok []
    else .error (.fault (.refused operation errno))
  | .error why => .error why

theorem linkPayloads_eq_overflow_iff (q : Query) :
    q.linkPayloads reply = .error .overflow ↔ reply = .error .overflow := by
  rw [linkPayloads.eq_def]
  split
  · simp
  · split_ifs <;> simp
  · rfl

end Query

namespace Session

/-- The reply to what a survey asks about links. -/
def linkReply (s : Session) (q : Query) : Except (Stop Fault) (List Bytes) × Session :=
  match q.index with
  | some index => s.request (linkRequest index) s!"getting link {index.toInt}"
  | none => s.dump linksRequest "link dump"

def addressReply (s : Session) (q : Query) : Except (Stop Fault) (List Bytes) × Session :=
  s.dump (addressRequestFor q) "address dump"

/-- How a survey goes: what it comes to, and the session that it leaves. -/
inductive Surveyed (s : Session) (q : Query) :
    Except (Stop Fault) Inventory → Session → Prop
  | noLinks {why : Stop Fault}
      (spoiled : SpoiledBy LinkEntry.decode (q.linkPayloads (s.linkReply q).1) why) :
      Surveyed s q (.error why) (s.linkReply q).2
  | linksOnly {bs : List Bytes} {links : List LinkEntry} (only : q.isLinkOnly = true)
      (payloads : q.linkPayloads (s.linkReply q).1 = .ok bs)
      (decodable : DecodeTo LinkEntry.decode bs links) :
      Surveyed s q (.ok ⟨links.map (·.interface), []⟩) (s.linkReply q).2
  | noAddresses {bs : List Bytes} {links : List LinkEntry} {why : Stop Fault}
      (both : q.isLinkOnly = false) (payloads : q.linkPayloads (s.linkReply q).1 = .ok bs)
      (decodable : DecodeTo LinkEntry.decode bs links)
      (spoiled : SpoiledBy AddressEntry.decode ((s.linkReply q).2.addressReply q).1 why) :
      Surveyed s q (.error why) ((s.linkReply q).2.addressReply q).2
  | complete {bs cs : List Bytes} {links : List LinkEntry} {all own : List AddressEntry}
      (both : q.isLinkOnly = false) (payloads : q.linkPayloads (s.linkReply q).1 = .ok bs)
      (decodable : DecodeTo LinkEntry.decode bs links)
      (listed : ((s.linkReply q).2.addressReply q).1 = .ok cs)
      (sound : DecodeTo AddressEntry.decode cs all)
      (owned : DecodeTo AddressEntry.decode (cs.filter q.isOwnedBy) own) :
      Surveyed s q (.ok ⟨links.map (·.interface), own.map (·.assignment)⟩)
        ((s.linkReply q).2.addressReply q).2

/-- A survey is broken off by one of its replies: by that about links, or, if everything in that one
makes sense, by that about addresses. -/
inductive BrokenOff (s : Session) (q : Query) : Prop
  | links (breaks : (s.linkReply q).1 = .error .overflow) : BrokenOff s q
  | addresses {bs : List Bytes} {links : List LinkEntry} (both : q.isLinkOnly = false)
      (payloads : q.linkPayloads (s.linkReply q).1 = .ok bs)
      (decodable : DecodeTo LinkEntry.decode bs links)
      (breaks : ((s.linkReply q).2.addressReply q).1 = .error .overflow) : BrokenOff s q

theorem fault_of_linkReply {index : Int32} (hq : q.index = some index)
    (h : (s.linkReply q).1 = .error (.fault fault)) :
    fault.isLocal = true ∨ ∃ operation errno, fault = .refused operation errno := by
  rw [linkReply, hq] at h
  cases hs : s.sendFault s.nextSeq with
  | some errno =>
    simp only [request, exchange_of_fault hs] at h
    cases h
    exact .inl rfl
  | none =>
    simp only [request, exchange_eq hs] at h
    rcases Reply.isLocal_or_refused h with hlocal | ⟨errno, rfl⟩
    · exact .inl hlocal
    · exact .inr ⟨_, errno, rfl⟩

/-- An unknown link is no failure, and of a reply about one link the first payload counts. -/
theorem toList_firstLink {index : Int32} (hq : q.index = some index)
    (hf : ∀ fault, reply = .error (.fault fault) →
      fault.isLocal = true ∨ ∃ operation errno, fault = .refused operation errno) :
    (firstLink reply).map (·.toList) = decodeAll LinkEntry.decode (q.linkPayloads reply) := by
  cases reply with
  | ok bs =>
    have hone : q.linkPayloads (.ok bs) = .ok (bs.take 1) := by simp [Query.linkPayloads, hq]
    rw [hone]
    cases bs with
    | nil => rfl
    | cons b bs =>
      rw [firstLink_cons, List.take_succ_cons, List.take_zero]
      cases hb : LinkEntry.decode b with
      | error fault => rw [decodeAll_ok, ← List.nil_append [b], mapM_of_undecodable .nil hb]; rfl
      | ok e => rw [DecodeTo.decodeAll_eq (.cons hb .nil)]; rfl
  | error why =>
    cases why with
    | overflow => rfl
    | fault fault =>
      rw [firstLink_fault]
      rcases hf fault rfl with hlocal | ⟨operation, errno, rfl⟩
      · rw [Fault.isNotFound_of_isLocal hlocal]
        cases fault <;> first | rfl | cases hlocal
      · by_cases hn : errno = .noEntry ∨ errno = .noDevice
        · have habsent : q.linkPayloads (.error (.fault (.refused operation errno))) = .ok [] := by
            simp [Query.linkPayloads, hq, hn]
          have hfound : (Fault.refused operation errno).isNotFound = true := decide_eq_true hn
          rw [habsent, hfound]
          rfl
        · have hrefused : q.linkPayloads (.error (.fault (.refused operation errno))) =
              .error (.fault (.refused operation errno)) := by simp [Query.linkPayloads, hn]
          have hfound : (Fault.refused operation errno).isNotFound = false := decide_eq_false hn
          rw [hrefused, hfound]
          rfl

theorem linkPayloads_of_all (hq : q.index = none) (reply : Except (Stop Fault) (List Bytes)) :
    q.linkPayloads reply = reply := by
  rw [Query.linkPayloads.eq_def]
  split <;> simp [hq]

theorem surveyLinks_eq (s : Session) (q : Query) :
    s.surveyLinks q =
      ((decodeAll LinkEntry.decode (q.linkPayloads (s.linkReply q).1)).map (·.map (·.interface)),
        (s.linkReply q).2) := by
  cases hq : q.index with
  | none =>
    rw [linkPayloads_of_all hq]
    simp only [surveyLinks, linkReply, hq]
    rfl
  | some index =>
    rw [← toList_firstLink hq fun fault h => fault_of_linkReply hq h]
    simp only [surveyLinks, linkReply, hq]
    change
      ((firstLink (s.request (linkRequest index) s!"getting link {index.toInt}").1).map _, _) = _
    cases firstLink (s.request (linkRequest index) s!"getting link {index.toInt}").1 <;> rfl

/-- The addresses of other interfaces are decoded too, and then dropped. -/
theorem surveyAddresses_eq (both : q.isLinkOnly = false) (s : Session) :
    s.surveyAddresses q =
      ((decodeAll AddressEntry.decode (s.addressReply q).1).map fun es =>
          (es.filter fun e => q.index.all (· = e.assignment.owner)).map (·.assignment),
        (s.addressReply q).2) := by
  have hindex (e : AddressEntry) : (q.index.map (·.toUInt32)).all (· = e.index) =
      q.index.all (· = e.assignment.owner) := by
    cases q.index with
    | none => rfl
    | some index =>
      have howner := Tables.owner_iff e index
      exact decide_eq_decide.mpr
        ⟨fun h => (howner.mpr h.symm).symm, fun h => (howner.mp h.symm).symm⟩
  simp only [surveyAddresses, both, Bool.false_eq_true, if_false, hindex]
  rfl

/-- Which addresses are of the interface asked for can be seen before they are decoded. -/
theorem filter_owned {cs : List Bytes} (h : DecodeTo AddressEntry.decode cs es) :
    DecodeTo AddressEntry.decode (cs.filter q.isOwnedBy)
      (es.filter fun e => q.index.all (· = e.assignment.owner)) := by
  induction h with
  | nil => exact .nil
  | @cons c e cs es hc _ ih =>
    have howned : q.isOwnedBy c = q.index.all (· = e.assignment.owner) := by
      rw [AddressEntry.owner_of_decode hc]
      rfl
    by_cases hown : q.isOwnedBy c = true
    · rw [List.filter_cons_of_pos hown, List.filter_cons_of_pos (howned ▸ hown)]
      exact .cons hc ih
    · rw [List.filter_cons_of_neg hown, List.filter_cons_of_neg (howned ▸ hown)]
      exact ih

theorem surveyLinks_of_links
    (h : decodeAll LinkEntry.decode (q.linkPayloads (s.linkReply q).1) = .ok links) :
    s.surveyLinks q = (.ok (links.map (·.interface)), (s.linkReply q).2) := by
  rw [surveyLinks_eq, h]
  rfl

theorem Surveyed.survey_eq (h : Surveyed s q outcome s') : s.survey q = (outcome, s') := by
  cases h with
  | noLinks spoiled =>
    rw [survey, surveyLinks_eq, spoiled.decodeAll_eq]
    rfl
  | linksOnly only payloads decodable =>
    have hlinks := decodable.decodeAll_eq
    rw [← payloads] at hlinks
    rw [survey_of_links (surveyLinks_of_links hlinks), surveyAddresses, only, if_pos rfl]
    rfl
  | noAddresses both payloads decodable spoiled =>
    have hlinks := decodable.decodeAll_eq
    rw [← payloads] at hlinks
    rw [survey_of_links (surveyLinks_of_links hlinks), surveyAddresses_eq both,
      spoiled.decodeAll_eq]
    rfl
  | complete both payloads decodable listed sound owned =>
    have hlinks := decodable.decodeAll_eq
    rw [← payloads] at hlinks
    have hown := Except.ok.inj ((filter_owned sound).mapM_eq.symm.trans owned.mapM_eq)
    rw [survey_of_links (surveyLinks_of_links hlinks), surveyAddresses_eq both, listed,
      sound.decodeAll_eq, ← hown]
    rfl

theorem exists_surveyed (s : Session) (q : Query) : ∃ outcome s', Surveyed s q outcome s' := by
  rcases decodes_or_spoiled LinkEntry.decode (q.linkPayloads (s.linkReply q).1) with
    ⟨bs, links, payloads, decodable⟩ | ⟨why, spoiled⟩
  · cases only : q.isLinkOnly with
    | true => exact ⟨_, _, .linksOnly only payloads decodable⟩
    | false =>
      rcases decodes_or_spoiled AddressEntry.decode ((s.linkReply q).2.addressReply q).1 with
        ⟨cs, all, listed, sound⟩ | ⟨why, spoiled⟩
      · exact ⟨_, _, .complete only payloads decodable listed sound (filter_owned sound)⟩
      · exact ⟨_, _, .noAddresses only payloads decodable spoiled⟩
  · exact ⟨_, _, .noLinks spoiled⟩

theorem surveyed_iff : Surveyed s q outcome s' ↔ s.survey q = (outcome, s') := by
  refine ⟨Surveyed.survey_eq, fun h => ?_⟩
  obtain ⟨outcome', s'', hsurveyed⟩ := exists_surveyed s q
  rw [hsurveyed.survey_eq] at h
  cases h
  exact hsurveyed

/-- Entries that make no sense break nothing off. -/
theorem survey_eq_overflow_iff : (s.survey q).1 = .error .overflow ↔ BrokenOff s q := by
  constructor
  · intro h
    obtain ⟨s', hs⟩ : ∃ s', s.survey q = (.error .overflow, s') := ⟨_, Prod.ext h rfl⟩
    cases surveyed_iff.mpr hs with
    | noLinks spoiled =>
      exact .links ((Query.linkPayloads_eq_overflow_iff q).mp spoiled.eq_overflow)
    | noAddresses both payloads decodable spoiled =>
      exact .addresses both payloads decodable spoiled.eq_overflow
  · intro h
    cases h with
    | links breaks =>
      have spoiled : SpoiledBy LinkEntry.decode (q.linkPayloads (s.linkReply q).1) .overflow := by
        rw [(Query.linkPayloads_eq_overflow_iff q).mpr breaks]
        exact .failed _
      rw [(Surveyed.noLinks spoiled).survey_eq]
    | addresses both payloads decodable breaks =>
      have spoiled : SpoiledBy AddressEntry.decode ((s.linkReply q).2.addressReply q).1
          .overflow := by
        rw [breaks]
        exact .failed _
      rw [(Surveyed.noAddresses both payloads decodable spoiled).survey_eq]

/-- The messages of an attempt to send a request. -/
def attempted (s : Session) (r : Request) : List Bytes :=
  if s.sendFault s.nextSeq = none then [s.message r] else []

theorem exchange_sent (s : Session) (r : Request) (collector : Collector) :
    (s.exchange r collector).2.sent = s.attempted r ++ s.sent := by
  cases hs : s.sendFault s.nextSeq with
  | none => rw [exchange_eq hs, after_sent, attempted, if_pos hs]; rfl
  | some errno => rw [exchange_of_fault hs, attempted, if_neg (by simp [hs])]; rfl

theorem linkReply_eq (s : Session) (q : Query) :
    ∃ collector, s.linkReply q = s.exchange (linkRequestFor q) collector := by
  rw [linkReply, linkRequestFor]
  cases q.index <;> exact ⟨_, rfl⟩

/-- A survey succeeds if its replies are complete and everything in them makes sense, and only
then. It has all links that were told of and all addresses of the interface asked for, in the order
in which they were told, or else it fails with what went wrong first. After a failure with links
nothing more is sent. It breaks off exactly if a reply that it comes to does. -/
theorem survey_all_or_nothing (s : Session) (q : Query) :
    (∀ outcome s', s.survey q = (outcome, s') ↔ Surveyed s q outcome s') ∧
    ((s.survey q).1 = .error .overflow ↔ BrokenOff s q) ∧
    (s.linkReply q).2.sent = s.attempted (linkRequestFor q) ++ s.sent ∧
    ((s.linkReply q).2.addressReply q).2.sent =
      (s.linkReply q).2.attempted (addressRequestFor q) ++ (s.linkReply q).2.sent := by
  refine ⟨fun outcome s' => surveyed_iff.symm, survey_eq_overflow_iff, ?_, exchange_sent _ _ _⟩
  obtain ⟨collector, hreply⟩ := s.linkReply_eq q
  rw [hreply, exchange_sent]

/-- The entry of interface -1, and addresses of that one and of another. -/
def minusParts : List Frame := [
  ⟨⟨32, Kind.newLink, 0, 1, 0⟩, [0, 0, 1, 0, 255, 255, 255, 255, 0, 0, 0, 0, 0, 0, 0, 0]⟩,
  ⟨⟨24, Kind.newAddress, 0, 2, 0⟩, [2, 24, 0, 0, 255, 255, 255, 255]⟩,
  ⟨⟨24, Kind.newAddress, 0, 2, 0⟩, [2, 24, 0, 0, 5, 0, 0, 0]⟩,
  ⟨⟨16, Kind.done, 0, 2, 0⟩, []⟩]

def minusSession : Session where
  portId := 7
  deliveries := [datagramOf (minusParts.take 1)] ++ [datagramOf (minusParts.drop 1)]

def minusQuery : Query := { index := some (-1) }

theorem survey_all_or_nothing_minus :
    (minusSession.survey minusQuery).1 = .ok {
      interfaces := [⟨-1, "", none, 0, .unknown, none⟩]
      assignments := [⟨-1, .inet, 24, 0, 0, none, none⟩] } := by
  have hlink : minusSession.linkReply minusQuery =
      (.ok [[0, 0, 1, 0, 255, 255, 255, 255, 0, 0, 0, 0, 0, 0, 0, 0]],
        minusSession.after (linkRequest (-1)) [datagramOf (minusParts.drop 1)]) := by
    have hbrings : Brings [datagramOf (minusParts.take 1)] (minusParts.take 1) :=
      brings_datagramOf (by decide) (by decide +kernel) (by decide)
    have hcollect : Reply.collect minusSession.nextSeq "getting link -1" minusSession.deliveries =
        (.ok [[0, 0, 1, 0, 255, 255, 255, 255, 0, 0, 0, 0, 0, 0, 0, 0]],
          [datagramOf (minusParts.drop 1)]) :=
      Reply.collect_brings_single hbrings rfl
    have hreply : minusSession.linkReply minusQuery =
        minusSession.request (linkRequest (-1)) "getting link -1" := rfl
    rw [hreply, request, exchange_eq rfl, hcollect]
  have haddress : ((minusSession.linkReply minusQuery).2.addressReply minusQuery).1 =
      .ok [[2, 24, 0, 0, 255, 255, 255, 255], [2, 24, 0, 0, 5, 0, 0, 0]] := by
    have hbrings : Brings [datagramOf (minusParts.drop 1)]
        ((minusParts.drop 1).take 2 ++ [⟨⟨16, Kind.done, 0, 2, 0⟩, []⟩]) :=
      brings_datagramOf (by decide) (by decide +kernel) (by decide)
    have hplain : ∀ f ∈ (minusParts.drop 1).take 2, Dump.Plain 2 f := by
      intro f hf
      simp only [minusParts, List.drop_succ_cons, List.drop_zero, List.take_succ_cons,
        List.take_zero, List.mem_cons, List.not_mem_nil, or_false] at hf
      rcases hf with rfl | rfl <;> exact ⟨rfl, by decide, by decide⟩
    have hcollect : Dump.collect 2 "address dump" {} ([datagramOf (minusParts.drop 1)] ++ []) =
        (.ok [[2, 24, 0, 0, 255, 255, 255, 255], [2, 24, 0, 0, 5, 0, 0, 0]], []) :=
      Dump.collect_brings hbrings hplain ⟨rfl, by decide, rfl⟩
    rw [hlink, addressReply, dump, exchange_eq rfl]
    exact congrArg Prod.fst hcollect
  have hlinkEntry : LinkEntry.decode [0, 0, 1, 0, 255, 255, 255, 255, 0, 0, 0, 0, 0, 0, 0, 0] =
      .ok { family := 0, type := 1, index := -1, flags := 0, change := 0 } :=
    LinkEntry.decode_eq_ok_iff.mpr ⟨0, [], [], by decide, ⟨[], .nil [], rfl⟩,
      List.forall_mem_nil _, rfl, .none, .none, rfl⟩
  have haddressEntry (index : UInt32) :
      AddressEntry.decode ([2, 24, 0, 0] ++ Bytes.ofNatLE 4 index.toNat) =
        .ok { family := 2, length := 24, headerFlags := 0, scope := 0, index } :=
    AddressEntry.decode_eq_ok_iff.mpr ⟨[], [], (List.append_nil _).symm, ⟨[], .nil [], rfl⟩,
      List.forall_mem_nil _, .none, .none, rfl, .none⟩
  have hsurveyed : Surveyed minusSession minusQuery (.ok {
      interfaces := [⟨-1, "", none, 0, .unknown, none⟩]
      assignments := [⟨-1, .inet, 24, 0, 0, none, none⟩] }) _ :=
    .complete rfl (by rw [hlink]; rfl) (.cons hlinkEntry .nil) haddress
      (.cons (haddressEntry 4294967295) (.cons (haddressEntry 5) .nil))
      (.cons (haddressEntry 4294967295) .nil)
  exact congrArg Prod.fst (((survey_all_or_nothing minusSession minusQuery).1 _ _).mpr hsurveyed)

/-- A survey whose first request is denied with the lowest code of all comes to no error, it breaks
off. -/
theorem lowest_code_overflows_survey :
    lowestSession.deliveries.flatMap (·.items) = [.message lowestRefusal] ∧
      Item.Overflows 1 (.message lowestRefusal) ∧
      (lowestSession.survey minusQuery).1 = .error .overflow := by
  have hreply : (lowestSession.linkReply minusQuery).1 = .error .overflow :=
    request_lowest (linkRequest (-1)) "getting link -1"
  refine ⟨?_, overflows_lowest, survey_eq_overflow_iff.mpr (.links hreply)⟩
  rw [lowestSession, List.flatMap_singleton, items_lowest]

end Session
end VethPeer
