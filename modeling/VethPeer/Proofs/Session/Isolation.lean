import Mathlib
import VethPeer.Proofs.Session.Kernel
import VethPeer.Proofs.Session.Reassembly

/-! What a reply lets in: messages of its own number only, whatever other whole datagrams lie among
the deliveries. -/
namespace VethPeer

open Wire

variable {α : Type} {own own' : Frame → Prop} {reads : Bytes → α → Prop}
  {decode : Bytes → Except Fault α} {numbers : UInt32 → Prop} {seq : UInt32} {operation : String}
  {f : Frame} {fs : List Frame} {b : Bytes} {bs : List Bytes} {fault : Fault} {stop : Stop Fault}
  {code : Int32} {d : Dump} {ds ds' : List Delivery} {outcome : Except (Stop Fault) (List Bytes)}

/-- The message comes in one of the deliveries. -/
def Arrives (ds : List Delivery) (f : Frame) : Prop :=
  ∃ b, Delivery.datagram b ∈ ds ∧ f ∈ (Frame.split (Delivery.received b)).1

theorem Arrives.of_subset (h : Arrives ds f) (hs : ds ⊆ ds') : Arrives ds' f := by
  obtain ⟨b, hb, hf⟩ := h
  exact ⟨b, hs hb, hf⟩

/-- The message refuses a request with this code. -/
structure Refuses (f : Frame) (code : Int32) : Prop where
  kind : f.header.kind = Kind.error
  whole : 20 ≤ f.payload.length
  code : Item.errorCode f = code

/-- All that the outcome tells, be it payloads or a code of the kernel, is in messages that are its
own. -/
def Owned (own : Frame → Prop) (reads : Bytes → α → Prop) : Except (Stop Fault) (List α) → Prop
  | .ok xs => ∀ x ∈ xs, ∃ f, own f ∧ reads f.payload x
  | .error stop => ∀ code, stop.code? = some code → ∃ f, own f ∧ Refuses f code

theorem Owned.mono {outcome : Except (Stop Fault) (List α)} (h : Owned own reads outcome)
    (hm : ∀ f, own f → own' f) : Owned own' reads outcome := by
  cases outcome with
  | ok xs =>
    intro x hx
    obtain ⟨f, hf, hr⟩ := h x hx
    exact ⟨f, hm f hf, hr⟩
  | error stop =>
    intro code hc
    obtain ⟨f, hf, hr⟩ := h code hc
    exact ⟨f, hm f hf, hr⟩

/-! ## Faults on this side -/

namespace Fault

/-- The kernel has not told of it, and no namespace was entered. -/
def isLocal : Fault → Bool
  | .kernel _ | .refused .. | .entry .. => false
  | _ => true

/-- It is about what was received. -/
def isOfReply : Fault → Bool
  | .truncated .. | .badMessage _ | .badAttribute _ | .interrupted _ | .badRecord _ => true
  | _ => false

theorem isLocal_of_isOfReply (h : fault.isOfReply = true) : fault.isLocal = true := by
  cases fault <;> first | rfl | cases h

theorem errno?_of_isLocal (h : fault.isLocal = true) : fault.errno? = none := by
  cases fault <;> first | rfl | cases h

theorem isNotFound_of_isLocal (h : fault.isLocal = true) : fault.isNotFound = false := by
  cases fault <;> first | rfl | cases h

end Fault

theorem owned_of_isLocal (h : fault.isLocal = true) :
    Owned own reads (.error (.fault fault) : Except (Stop Fault) (List α)) := by
  intro code hc
  rw [Stop.code?, Fault.errno?_of_isLocal h] at hc
  cases hc

theorem Wire.Frame.isOfReply_of_next (h : Frame.next b = .error fault) :
    fault.isOfReply = true := by
  unfold Frame.next at h
  cases hr : Header.read b with
  | error readFault =>
    have hf : readFault.isOfReply = true := by
      unfold Header.read at hr
      split at hr
      · cases hr
      · cases hr
        rfl
    rw [hr] at h
    cases h
    exact hf
  | ok header =>
    simp only [hr, bind, Except.bind] at h
    split at h
    · cases h
      rfl
    · split at h
      · cases h
        rfl
      · cases h

theorem Wire.Frame.isOfReply_of_split (h : (Frame.split b).2 = some fault) :
    fault.isOfReply = true := by
  fun_induction Frame.split b with
  | case1 => cases h
  | case2 b _ nextFault hn =>
    cases h
    exact isOfReply_of_next hn
  | case3 b _ f rest hn fs splitFault hs ih => exact ih (by rw [hs]; exact h)

theorem Wire.Cursor.isOfReply_of_record {size : ℕ} {start : Bytes → α}
    {take : α → Attribute → Option α} (h : Cursor.record size start take b = .error fault) :
    fault.isOfReply = true := by
  unfold Cursor.record at h
  split at h
  · cases h
    rfl
  · cases hf : Cursor.fill take (start _) _ with
    | ok record =>
      rw [hf] at h
      cases h
    | error stop =>
      rw [hf] at h
      cases h
      rfl

theorem kind_of_refusal? (h : f.refusal? operation = some stop) : f.header.kind = Kind.error := by
  by_contra hk
  simp [Frame.refusal?, Header.isError, hk] at h

/-- A refusal is told by the message that it is in. -/
theorem refuses_of_refusal? (h : f.refusal? operation = some stop)
    (hc : stop.code? = some code) : Refuses f code := by
  have hk := kind_of_refusal? h
  rw [Item.refusal?_eq operation f hk] at h
  split_ifs at h with hl hz
  · cases h
    cases hc
  · cases h
    rw [Stop.code?_ofRefusal] at hc
    exact ⟨hk, not_lt.mp hl, Option.some.inj hc⟩

/-! ## Own messages -/

/-- The message comes in one of the deliveries under this number. -/
def ArrivesAs (ds : List Delivery) (seq : UInt32) (f : Frame) : Prop :=
  Arrives ds f ∧ f.header.seq = seq

theorem mem_ofDeliveries {i : Item} (h : i ∈ Item.ofDeliveries ds) :
    (∃ errno, i = .failure errno) ∨
      ∃ b, Delivery.datagram b ∈ ds ∧ i ∈ Item.ofDatagram (Delivery.received b) := by
  induction ds with
  | nil => exact Or.inl ⟨_, List.mem_singleton.mp h⟩
  | cons delivery ds ih =>
    have hrest : i ∈ Item.ofDeliveries ds → (∃ errno, i = .failure errno) ∨
        ∃ b, Delivery.datagram b ∈ delivery :: ds ∧ i ∈ Item.ofDatagram (Delivery.received b) := by
      intro hi
      rcases ih hi with hf | ⟨b, hb, hi⟩
      · exact Or.inl hf
      · exact Or.inr ⟨b, List.mem_cons_of_mem _ hb, hi⟩
    cases delivery with
    | notReady => exact hrest h
    | failure errno =>
      rcases List.mem_cons.mp h with hi | hi
      · exact Or.inl ⟨errno, hi⟩
      · exact hrest hi
    | datagram b =>
      rcases List.mem_append.mp h with hi | hi
      · exact Or.inr ⟨b, List.mem_cons_self, hi⟩
      · exact hrest hi

theorem arrives_of_mem_ofDeliveries (h : Item.message f ∈ Item.ofDeliveries ds) : Arrives ds f := by
  rcases mem_ofDeliveries h with ⟨errno, hf⟩ | ⟨b, hb, hf⟩
  · cases hf
  · exact ⟨b, hb, by simpa [Item.ofDatagram] using hf⟩

theorem isOfReply_of_malformed (h : Item.malformed fault ∈ Item.ofDeliveries ds) :
    fault.isOfReply = true := by
  rcases mem_ofDeliveries h with ⟨errno, hf⟩ | ⟨b, hb, hf⟩
  · cases hf
  · have hs : (Frame.split (Delivery.received b)).2 = some fault := by
      simpa [Item.ofDatagram] using hf
    exact Frame.isOfReply_of_split hs

/-- A whole datagram of well-framed messages, none of which has one of these numbers. -/
structure Foreign (numbers : UInt32 → Prop) (b : Bytes) : Prop where
  whole : b.length ≤ Delivery.capacity
  framed : (Frame.split b).2 = none
  other : ∀ f ∈ (Frame.split b).1, ¬ numbers f.header.seq

theorem foreign_encodeAll (wf : ∀ f ∈ fs, f.WellFormed)
    (fits : (Frame.encodeAll fs).length ≤ Delivery.capacity)
    (other : ∀ f ∈ fs, ¬ numbers f.header.seq) : Foreign numbers (Frame.encodeAll fs) where
  whole := fits
  framed := by rw [Frame.split_encodeAll wf]
  other := by rwa [Frame.split_encodeAll wf]

/-- The second list of deliveries is the first with foreign datagrams put in anywhere. -/
inductive Strewn (numbers : UInt32 → Prop) : List Delivery → List Delivery → Prop
  | nil : Strewn numbers [] []
  | keep {ds ds' : List Delivery} (delivery : Delivery) (tail : Strewn numbers ds ds') :
      Strewn numbers (delivery :: ds) (delivery :: ds')
  | insert {b : Bytes} {ds ds' : List Delivery} (foreign : Foreign numbers b)
      (tail : Strewn numbers ds ds') : Strewn numbers ds (.datagram b :: ds')

theorem Foreign.split_received (h : Foreign numbers b) :
    Frame.split (Delivery.received b) = ((Frame.split b).1, none) := by
  rw [Delivery.received, List.take_of_length_le h.whole, ← h.framed]

/-- Deliveries are taken from the front until a datagram settles the outcome. -/
def receive {σ : Type} (step : σ → Bytes → Except (Stop Fault) (List Bytes) ⊕ σ) (x : σ) :
    List Delivery → Except (Stop Fault) (List Bytes) × List Delivery
  | [] => (.error (.fault (.io .timedOut)), [])
  | .notReady :: rest => receive step x rest
  | .failure errno :: rest => (.error (.fault (.io errno)), rest)
  | .datagram b :: rest =>
    match step x (Delivery.received b) with
    | .inl outcome => (outcome, rest)
    | .inr x => receive step x rest

section receive

variable {σ : Type} {step : σ → Bytes → Except (Stop Fault) (List Bytes) ⊕ σ}

theorem receive_suffix (x : σ) (ds : List Delivery) : (receive step x ds).2 <:+ ds := by
  induction ds generalizing x with
  | nil => exact List.suffix_rfl
  | cons delivery ds ih =>
    cases delivery with
    | notReady => exact (ih x).trans (List.suffix_cons _ _)
    | failure errno => exact List.suffix_cons _ _
    | datagram b =>
      rw [receive]
      cases step x (Delivery.received b) with
      | inl outcome => exact List.suffix_cons _ _
      | inr x => exact (ih x).trans (List.suffix_cons _ _)

/-- The two runs take the same deliveries, apart from foreign datagrams that change nothing. -/
theorem receive_strewn
    (hf : ∀ x b, Foreign numbers b → step x (Delivery.received b) = .inr x)
    (h : Strewn numbers ds ds') (x : σ) :
    (receive step x ds').1 = (receive step x ds).1 ∧
      Strewn numbers (receive step x ds).2 (receive step x ds').2 := by
  induction h generalizing x with
  | nil => exact ⟨rfl, .nil⟩
  | keep delivery tail ih =>
    cases delivery with
    | notReady => exact ih x
    | failure errno => exact ⟨rfl, tail⟩
    | datagram b =>
      rw [receive, receive]
      cases step x (Delivery.received b) with
      | inl outcome => exact ⟨rfl, tail⟩
      | inr x => exact ih x
  | insert foreign tail ih =>
    -- the state is what it was, so the run without the datagram need not take a step
    rw [receive, hf x _ foreign]
    exact ih x

end receive

/-- A collector takes deliveries from the front, tells only what messages of its own number say, and
does not notice datagrams in which there are none. -/
structure Selective (collector : Session.Collector) : Prop where
  suffix : ∀ seq ds, (collector seq ds).2 <:+ ds
  owned : ∀ seq ds, Owned (ArrivesAs ds seq) (· = ·) (collector seq ds).1
  strewn : ∀ seq numbers ds ds', numbers seq → Strewn numbers ds ds' →
    (collector seq ds').1 = (collector seq ds).1 ∧
      Strewn numbers (collector seq ds).2 (collector seq ds').2

/-! ## Replies to one request -/

namespace Session

theorem firstLink_nil : firstLink (.ok []) = .ok none := rfl

theorem firstLink_cons (b : Bytes) (bs : List Bytes) :
    firstLink (.ok (b :: bs)) = ((LinkEntry.decode b).map some).mapError .fault := rfl

theorem firstLink_fault (fault : Fault) :
    firstLink (.error (.fault fault)) =
      if fault.isNotFound then .ok none else .error (.fault fault) := rfl

/-- A reply that succeeds tells of no link only by having no payload. -/
theorem firstLink_ok_eq_none (h : firstLink (.ok bs) = .ok none) : bs = [] := by
  cases bs with
  | nil => rfl
  | cons b bs =>
    rw [firstLink_cons] at h
    cases hb : LinkEntry.decode b <;> simp [hb, Except.map, Except.mapError] at h

end Session

namespace Reply

def step (seq : UInt32) (operation : String) (_ : Unit) (b : Bytes) :
    Except (Stop Fault) (List Bytes) ⊕ Unit :=
  match ofDatagram seq operation b with
  | some outcome => .inl outcome
  | none => .inr ()

theorem collect_eq_receive (seq : UInt32) (operation : String) (ds : List Delivery) :
    collect seq operation ds = receive (step seq operation) () ds := by
  induction ds with
  | nil => rfl
  | cons delivery ds ih =>
    cases delivery with
    | notReady => exact ih
    | failure errno => rfl
    | datagram b =>
      rw [collect, receive, step]
      cases ofDatagram seq operation (Delivery.received b) with
      | none => exact ih
      | some outcome => rfl

theorem step_foreign (h : Foreign numbers b) (hn : numbers seq) (x : Unit) :
    step seq operation x (Delivery.received b) = .inr x := by
  have hown : (Frame.split b).1.filter (·.header.seq = seq) = [] := by
    rw [List.filter_eq_nil_iff]
    intro f hf hs
    have hseq : f.header.seq = seq := by simpa using hs
    exact h.other f hf (hseq ▸ hn)
  simp [step, ofDatagram, h.split_received, hown]

/-- All that a reply tells is in own messages, also that there is nothing to tell. -/
structure Told (own : Frame → Prop) (outcome : Except (Stop Fault) (List Bytes)) : Prop where
  owned : Owned own (· = ·) outcome
  nothing : Session.firstLink outcome = .ok none → ∃ f, own f ∧ f.header.kind = Kind.error

theorem Told.mono (h : Told own outcome) (hm : ∀ f, own f → own' f) : Told own' outcome where
  owned := h.owned.mono hm
  nothing := by
    intro ho
    obtain ⟨f, hf, hk⟩ := h.nothing ho
    exact ⟨f, hm f hf, hk⟩

theorem told_of_isLocal (h : fault.isLocal = true) : Told own (.error (.fault fault)) := by
  refine ⟨owned_of_isLocal h, fun ho => ?_⟩
  simp [Session.firstLink_fault, Fault.isNotFound_of_isLocal h] at ho

theorem ofDatagram_told (h : ofDatagram seq operation b = some outcome) :
    Told (fun f => f ∈ (Frame.split b).1 ∧ f.header.seq = seq) outcome := by
  have hmem {f : Frame} (hf : f ∈ (Frame.split b).1.filter (·.header.seq = seq)) :
      f ∈ (Frame.split b).1 ∧ f.header.seq = seq := by simpa using hf
  simp only [ofDatagram] at h
  split at h
  · rename_i stop hstop
    cases h
    rcases Option.or_eq_some_iff.mp hstop with hr | ⟨-, hs⟩
    · obtain ⟨f, hf, hr⟩ := List.exists_of_findSome?_eq_some hr
      constructor
      · intro code hc
        exact ⟨f, hmem hf, refuses_of_refusal? hr hc⟩
      · intro _
        exact ⟨f, hmem hf, kind_of_refusal? hr⟩
    · obtain ⟨fault, hsplit, rfl⟩ := Option.map_eq_some_iff.mp hs
      exact told_of_isLocal (Fault.isLocal_of_isOfReply (Frame.isOfReply_of_split hsplit))
  · split at h
    · cases h
    · rename_i hne
      cases h
      constructor
      · intro payload hp
        obtain ⟨f, hf, rfl⟩ := List.mem_map.mp hp
        exact ⟨f, hmem (List.mem_filter.mp hf).1, rfl⟩
      · intro ho
        -- there is an own message, and no own message has a payload to give
        obtain ⟨f, hf⟩ := List.isEmpty_eq_false_iff_exists_mem.mp (Bool.eq_false_iff.mpr hne)
        have hnil := List.map_eq_nil_iff.mp (Session.firstLink_ok_eq_none ho)
        have hkind := List.filter_eq_nil_iff.mp hnil f hf
        exact ⟨f, hmem hf, by simpa [Header.isError] using hkind⟩

theorem collect_told (seq : UInt32) (operation : String) (ds : List Delivery) :
    Told (ArrivesAs ds seq) (collect seq operation ds).1 := by
  induction ds with
  | nil => exact told_of_isLocal rfl
  | cons delivery ds ih =>
    have htail : Told (ArrivesAs (delivery :: ds) seq) (collect seq operation ds).1 :=
      ih.mono fun f hf => ⟨hf.1.of_subset (List.subset_cons_self _ _), hf.2⟩
    cases delivery with
    | notReady => exact htail
    | failure errno => exact told_of_isLocal rfl
    | datagram b =>
      rw [collect]
      cases ho : ofDatagram seq operation (Delivery.received b) with
      | none => exact htail
      | some outcome =>
        exact (ofDatagram_told ho).mono fun f hf => ⟨⟨b, List.mem_cons_self, hf.1⟩, hf.2⟩

theorem selective (operation : String) : Selective fun seq => collect seq operation where
  suffix := by
    intro seq ds
    rw [collect_eq_receive]
    exact receive_suffix _ ds
  owned := fun seq ds => (collect_told seq operation ds).owned
  strewn := by
    intro seq numbers ds ds' hn h
    rw [collect_eq_receive, collect_eq_receive]
    exact receive_strewn (fun x b hb => step_foreign hb hn x) h _

end Reply

/-! ## Dumps -/

namespace Dump

def step (seq : UInt32) (operation : String) (d : Dump) (b : Bytes) :
    Except (Stop Fault) (List Bytes) ⊕ Dump :=
  match feed seq operation d (Frame.split b).1, (Frame.split b).2 with
  | .error stop, _ => .inl (.error stop)
  | .ok (d, true), _ => .inl (finish operation d)
  | .ok (_, false), some fault => .inl (.error (.fault fault))
  | .ok (d, false), none => .inr d

theorem collect_eq_receive (seq : UInt32) (operation : String) (d : Dump) (ds : List Delivery) :
    collect seq operation d ds = receive (step seq operation) d ds := by
  induction ds generalizing d with
  | nil => rfl
  | cons delivery ds ih =>
    cases delivery with
    | notReady => exact ih d
    | failure errno => rfl
    | datagram b =>
      simp only [collect, receive, step]
      cases feed seq operation d (Frame.split (Delivery.received b)).1 with
      | error stop => rfl
      | ok p =>
        obtain ⟨d, _ | _⟩ := p
        · cases (Frame.split (Delivery.received b)).2 with
          | none => exact ih d
          | some fault => rfl
        · rfl

theorem feed_foreign (h : ∀ f ∈ fs, f.header.seq ≠ seq) (operation : String) (d : Dump) :
    feed seq operation d fs = .ok (d, false) := by
  induction fs with
  | nil => rfl
  | cons f fs ih =>
    rw [feed, if_pos (h f (by simp)), ih fun g hg => h g (by simp [hg])]

theorem step_foreign (h : Foreign numbers b) (hn : numbers seq) (d : Dump) :
    step seq operation d (Delivery.received b) = .inr d := by
  have hfeed : feed seq operation d (Frame.split b).1 = .ok (d, false) := by
    apply feed_foreign
    rintro f hf rfl
    exact h.other f hf hn
  rw [step, h.split_received, hfeed]

/-- Only a message of the request itself settles its dump with an error of the kernel. -/
theorem refuses_of_decision? (h : (Item.message f).decision? seq operation = some (.stop stop))
    (hc : stop.code? = some code) : f.header.seq = seq ∧ Refuses f code := by
  simp only [Item.decision?, Item.decisionOf] at h
  split_ifs at h with hs hk hl hz ho hd
  · cases h
    cases hc
  · cases h
    rw [Stop.code?_ofRefusal] at hc
    exact ⟨hs, hk, not_lt.mp hl, Option.some.inj hc⟩
  · cases h
    cases hc
  · cases h

theorem own_of_payload? {i : Item} {payload : Bytes} (h : i.payload? seq = some payload) :
    ∃ f, i = .message f ∧ f.header.seq = seq ∧ f.payload = payload := by
  cases i with
  | message f =>
    simp only [Item.payload?] at h
    split_ifs at h with hs
    cases h
    exact ⟨f, rfl, hs.1, rfl⟩
  | malformed fault => cases h
  | failure errno => cases h

theorem collect_owned (seq : UInt32) (operation : String) (ds : List Delivery) :
    Owned (ArrivesAs ds seq) (· = ·) (collect seq operation {} ds).1 := by
  obtain ⟨before, last, after, e, hi, hb, hl⟩ := Item.exists_decision seq operation ds
  have hlast : last ∈ Item.ofDeliveries ds := by simp [hi]
  rw [Item.collect_eq_outcome, hi, Item.outcome_of_decision hb hl]
  -- what settles the dump is a message of its own, or its fault is not the kernel's
  cases e with
  | stop stop =>
    intro code hc
    cases last with
    | message f =>
      obtain ⟨hs, hr⟩ := refuses_of_decision? hl hc
      exact ⟨f, ⟨arrives_of_mem_ofDeliveries hlast, hs⟩, hr⟩
    | malformed malformedFault =>
      cases hl
      have hlocal := Fault.isLocal_of_isOfReply (isOfReply_of_malformed hlast)
      rw [Stop.code?, Fault.errno?_of_isLocal hlocal] at hc
      cases hc
    | failure errno =>
      cases hl
      cases hc
  | finish =>
    rw [Decision.settle, finish]
    split
    · exact owned_of_isLocal rfl
    · intro payload hp
      change payload ∈ (before.foldl (Item.absorb seq) {}).payloads.reverse at hp
      rw [Item.foldl_absorb_payloads, List.reverse_nil, List.nil_append] at hp
      obtain ⟨i, hib, hpi⟩ := List.mem_filterMap.mp hp
      obtain ⟨f, rfl, hs, hf⟩ := own_of_payload? hpi
      exact ⟨f, ⟨arrives_of_mem_ofDeliveries (by simp [hi, hib]), hs⟩, hf⟩

theorem selective (operation : String) : Selective fun seq => collect seq operation {} where
  suffix := by
    intro seq ds
    rw [collect_eq_receive]
    exact receive_suffix _ ds
  owned := fun seq ds => collect_owned seq operation ds
  strewn := by
    intro seq numbers ds ds' hn h
    rw [collect_eq_receive, collect_eq_receive]
    exact receive_strewn (fun d b hb => step_foreign hb hn d) h _

end Dump
end VethPeer
