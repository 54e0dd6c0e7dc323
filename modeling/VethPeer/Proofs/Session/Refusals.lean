import Mathlib
import VethPeer.Proofs.Session.Noops

/-! What a call makes of the code in an error message that it comes to. -/
namespace VethPeer

open Wire

variable {c : Call} {f : Frame} {s : Session} {seq : UInt32} {code : Int32} {ds : List Delivery}
  {why : Stop Fault}

/-- An error message for the request `seq` that carries this code, and does not acknowledge. -/
structure Wire.Frame.Refuses (seq : UInt32) (code : Int32) (f : Frame) : Prop where
  own : f.header.seq = seq
  error : f.header.kind = .error
  whole : 20 ≤ f.payload.length
  carries : Item.errorCode f = code
  nonzero : code ≠ 0

namespace Item

theorem denial?_of_refuses (h : f.Refuses seq code) (operation : String) :
    (Item.message f).denial? seq operation = some (.ofRefusal operation code) := by
  obtain ⟨own, error, whole, rfl, nonzero⟩ := h
  rw [denial?, if_pos ⟨own, error⟩, if_neg (not_lt.mpr whole), if_neg nonzero]

theorem decision?_of_refuses (h : f.Refuses seq code) (operation : String) :
    (Item.message f).decision? seq operation = some (.stop (.ofRefusal operation code)) := by
  obtain ⟨own, error, whole, rfl, nonzero⟩ := h
  rw [decision?, if_pos own, decisionOf, if_pos error, if_neg (not_lt.mpr whole), if_neg nonzero]

end Item

/-- Why a call has no result. -/
def Response.stop? : Response → Option (Stop Fault)
  | .links (.error why) => some why
  | .link (.error why) => some why
  | .addresses (.error why) => some why
  | .payloads (.error why) => some why
  | _ => none

namespace Call

/-- What a call says that it does. -/
def purpose : Call → String
  | .links => "link dump"
  | .link index => s!"getting link {index.toInt}"
  | .addresses _ _ => "address dump"
  | .request _ operation => operation
  | .dump _ operation => operation

/-- Under the number `seq` a call comes to this message: nothing that is delivered before it decides
what becomes of the call. A call for a table goes through all messages, and one that asks for one
thing passes over deliveries with nothing for it. -/
inductive Reaches (seq : UInt32) (c : Call) (f : Frame) (ds : List Delivery) : Prop
  | table {before after : List Item} (asks : c.asks? = none)
      (items : Item.ofDeliveries ds = before ++ .message f :: after)
      (quiet : ∀ i ∈ before, i.decision? seq c.purpose = none) : Reaches seq c f ds
  | single {passed rest : List Delivery} {d : Delivery} {before after : List Item}
      (asks : c.asks? = some c.purpose) (deliveries : ds = passed ++ d :: rest)
      (passes : ∀ x ∈ passed, x.Passes seq) (items : d.items = before ++ .message f :: after)
      (quiet : ∀ i ∈ before, i.denial? seq c.purpose = none) : Reaches seq c f ds

theorem collects_of_table (h : c.asks? = none) (seq : UInt32) :
    c.collects seq = Dump.collect seq c.purpose {} := by
  cases c <;> cases h <;> rfl

/-- Whatever came before it, the message settles the call. -/
theorem collects_of_refuses (reached : c.Reaches seq f ds) (refuses : f.Refuses seq code) :
    (c.collects seq ds).1 = .error (.ofRefusal c.purpose code) := by
  cases reached with
  | table asks items quiet =>
    rw [collects_of_table asks, Item.collect_eq_outcome, items,
      Item.outcome_of_decision quiet (Item.decision?_of_refuses refuses c.purpose)]
    rfl
  | @single passed rest d before after asks deliveries passes items quiet =>
    have hdenies := Item.denial?_of_refuses refuses c.purpose
    have hp : ¬ d.Passes seq := by
      intro hp
      have hconcerns := hp (.message f) (by rw [items]; simp)
      rw [Item.concerns_of_denial hdenies] at hconcerns
      cases hconcerns
    rw [collects_of_asks asks, deliveries, Reply.collect_append_of_passes passes,
      Reply.collect_of_settles hp (.denied items quiet hdenies)]

/-- Only the question for a link takes a fault for an answer. -/
theorem stop?_reads (h : (∀ fault, why = .fault fault → fault.isNotFound = false) ∨
      ∀ index, c ≠ .link index) : (c.reads (.error why)).stop? = some why := by
  cases c with
  | links => rfl
  | link index =>
    cases why with
    | overflow => rfl
    | fault fault =>
      have hfound : fault.isNotFound = false :=
        (h.resolve_right fun hne => hne index rfl) fault rfl
      rw [reads, Session.firstLink_fault, hfound]
      rfl
  | addresses => rfl
  | request => rfl
  | dump => rfl

theorem perform_of_refuses (hs : s.sendFault s.nextSeq = none)
    (reached : c.Reaches s.nextSeq f s.deliveries) (refuses : f.Refuses s.nextSeq code) :
    (c.perform s).1 = c.reads (.error (.ofRefusal c.purpose code)) :=
  c.perform_receiving hs (collects_of_refuses reached refuses)

/-- The lowest code of all has no error number, so whoever meets it has nothing to go on with. -/
theorem stop?_perform_of_lowest (hs : s.sendFault s.nextSeq = none)
    (reached : c.Reaches s.nextSeq f s.deliveries)
    (refuses : f.Refuses s.nextSeq Int32.minValue) : (c.perform s).1.stop? = some .overflow := by
  rw [perform_of_refuses hs reached refuses, Stop.ofRefusal_eq_overflow_iff.mpr rfl]
  exact stop?_reads (.inl nofun)

/-- A call that comes to an error message with a code fails with the error number that is the
negative of the code as integers are, except that a link that does not exist is none. Whether the
number stands for something that does not exist or for missing rights is told by the code itself.
Only the lowest code of all has no such number: there every call breaks off. -/
theorem perform_refused (hs : s.sendFault s.nextSeq = none)
    (reached : c.Reaches s.nextSeq f s.deliveries) (refuses : f.Refuses s.nextSeq code) :
    (code ≠ Int32.minValue → ∃ errno : Errno, errno.toInt = -code.toInt ∧
      ((code ≠ -2 ∧ code ≠ -19 ∨ ∀ index, c ≠ .link index) →
        (c.perform s).1.stop? = some (.fault (.refused c.purpose errno))) ∧
      ((Fault.refused c.purpose errno).isNotFound = true ↔ code = -2 ∨ code = -19) ∧
      ((Fault.refused c.purpose errno).isPermission = true ↔ code = -1 ∨ code = -13)) ∧
    (∀ index, c = .link index → code = -2 ∨ code = -19 → (c.perform s).1 = .link (.ok none)) ∧
    ((c.perform s).1.stop? = some .overflow ↔ code = Int32.minValue) := by
  have hperform := perform_of_refuses hs reached refuses
  cases hstop : Stop.ofRefusal c.purpose code with
  | overflow =>
    obtain rfl := Stop.ofRefusal_eq_overflow_iff.mp hstop
    have hbreaks := stop?_perform_of_lowest hs reached refuses
    refine ⟨fun hne => absurd rfl hne, ?_, fun _ => rfl, fun _ => hbreaks⟩
    rintro index - (hcode | hcode) <;> cases hcode
  | fault fault =>
    obtain ⟨errno, herrno, rfl⟩ := Stop.ofRefusal_eq_fault_iff.mp hstop
    rw [hstop] at hperform
    have hcode : code ≠ Int32.minValue := by
      intro hmin
      rw [Stop.ofRefusal_eq_overflow_iff.mpr hmin] at hstop
      cases hstop
    have hfound : (Fault.refused c.purpose errno).isNotFound = true ↔ code = -2 ∨ code = -19 :=
      Fault.isNotFound_refused herrno
    refine ⟨fun _ => ⟨errno, herrno, ?_, hfound, Fault.isPermission_refused herrno⟩, ?_,
      ⟨fun h => ?_, fun h => absurd h hcode⟩⟩
    · intro h
      rw [hperform]
      refine stop?_reads (h.imp_left ?_)
      rintro hother fault ⟨⟩
      rw [Bool.eq_false_iff, ne_eq, hfound]
      exact not_or.mpr hother
    · rintro index rfl hnone
      rw [hperform, reads, Session.firstLink_fault, if_pos (hfound.mpr hnone)]
    · rw [hperform] at h
      cases c with
      | link index =>
        rw [reads, Session.firstLink_fault] at h
        split_ifs at h <;> cases h
      | links | addresses | request | dump => cases h

theorem asks?_eq (c : Call) : c.asks? = none ∨ c.asks? = some c.purpose := by
  cases c <;> simp [asks?, purpose]

end Call

namespace Session

/-- The error message with this code comes behind a message of another request, and a link. -/
def refusing (code : Int32) : Session where
  portId := 77
  deliveries := [datagramOf [stray], datagramOf [someLink, codeFrame code]]

theorem refuses_codeFrame (h : code ≠ 0) : (codeFrame code).Refuses 1 code where
  own := rfl
  error := rfl
  whole := by simp [codeFrame]
  carries := by
    have hlt : code.toUInt32.toNat < 256 ^ 4 := UInt32.toNat_lt _
    rw [Item.errorCode, codeFrame, Bytes.field_ofNatLE, Nat.mod_eq_of_lt hlt, UInt32.ofNat_toNat,
      Int32.toInt32_toUInt32]
  nonzero := h

theorem items_refusing (code : Int32) :
    (datagramOf [stray]).items = [.message stray] ∧
      (datagramOf [someLink, codeFrame code]).items =
        [.message someLink, .message (codeFrame code)] := by
  refine ⟨items_datagramOf (by decide) (by decide +kernel), items_datagramOf ?_ ?_⟩
  · rw [List.forall_mem_cons, List.forall_mem_singleton]
    exact ⟨rfl, by simp [Frame.WellFormed, codeFrame, Header.size]⟩
  · have hlength : (codeFrame code).encode.length = 36 := by
      rw [Frame.encode, Bytes.length_padded, Frame.length_frameBytes]
      simp [codeFrame, Header.size, Bytes.aligned]
    rw [Frame.encodeAll, List.flatMap_cons, List.flatMap_cons, List.length_append,
      List.length_append, hlength]
    decide

/-- Every call can come to every code. -/
theorem reaches_refusing (c : Call) (code : Int32) :
    c.Reaches 1 (codeFrame code) (refusing code).deliveries := by
  obtain ⟨hstray, hrefusing⟩ := items_refusing code
  rcases c.asks?_eq with asks | asks
  · have hitems : Item.ofDeliveries (refusing code).deliveries =
        [.message stray, .message someLink] ++ .message (codeFrame code) ::
          [.failure .timedOut] := by
      rw [refusing, Item.ofDeliveries_cons, Item.ofDeliveries_cons, hstray, hrefusing]
      rfl
    refine .table asks hitems ?_
    rw [List.forall_mem_cons, List.forall_mem_singleton]
    exact ⟨rfl, rfl⟩
  · have hdeliveries : (refusing code).deliveries =
        [datagramOf [stray]] ++ datagramOf [someLink, codeFrame code] :: [] := rfl
    have hitems : (datagramOf [someLink, codeFrame code]).items =
        [.message someLink] ++ .message (codeFrame code) :: [] := hrefusing
    refine .single asks hdeliveries ?_ hitems ?_
    · rw [List.forall_mem_singleton, Delivery.Passes, hstray, List.forall_mem_singleton]
      rfl
    · rw [List.forall_mem_singleton]
      rfl

/-- Missing rights end a dump, and a link that is not there is none. -/
theorem perform_refused_refusing :
    (∃ errno : Errno, errno.toInt = 1 ∧ (Call.links.perform (refusing (-1))).1.stop? =
      some (.fault (.refused "link dump" errno))) ∧
    ((Call.link 7).perform (refusing (-19))).1 = .link (.ok none) := by
  have rights : (codeFrame (-1)).Refuses 1 (-1) := refuses_codeFrame (by decide)
  have device : (codeFrame (-19)).Refuses 1 (-19) := refuses_codeFrame (by decide)
  have hrights := Call.perform_refused (s := refusing (-1)) rfl
    (reaches_refusing .links (-1)) rights
  have hdevice := Call.perform_refused (s := refusing (-19)) rfl
    (reaches_refusing (.link 7) (-19)) device
  obtain ⟨errno, herrno, hstop, -⟩ := hrights.1 (by decide)
  exact ⟨⟨errno, herrno, hstop (.inl (by decide))⟩, hdevice.2.1 7 rfl (.inr rfl)⟩

/-- No number comes of the lowest code, whichever way a call meets it. -/
theorem lowest_code_breaks_off :
    (codeFrame Int32.minValue).Refuses 1 Int32.minValue ∧
    (Call.link 7).Reaches 1 (codeFrame Int32.minValue) (refusing Int32.minValue).deliveries ∧
    ((Call.link 7).perform (refusing Int32.minValue)).1.stop? = some .overflow ∧
    Call.links.Reaches 1 (codeFrame Int32.minValue) (refusing Int32.minValue).deliveries ∧
    (Call.links.perform (refusing Int32.minValue)).1.stop? = some .overflow := by
  have refuses : (codeFrame Int32.minValue).Refuses 1 Int32.minValue :=
    refuses_codeFrame (by decide)
  have link := reaches_refusing (.link 7) Int32.minValue
  have links := reaches_refusing .links Int32.minValue
  exact ⟨refuses, link, Call.stop?_perform_of_lowest rfl link refuses, links,
    Call.stop?_perform_of_lowest rfl links refuses⟩

end Session
end VethPeer
