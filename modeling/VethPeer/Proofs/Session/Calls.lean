import Mathlib
import VethPeer.Proofs.Session.Isolation

/-! Calls one after the other over one session: each has a number of its own, and no call reads what
was sent for another. -/
namespace VethPeer

open Wire

variable {α : Type} {own own' : Frame → Prop} {decode : Bytes → Except Fault α}
  {numbers : UInt32 → Prop} {s : Session} {r : Request} {collector : Session.Collector}
  {bs : List Bytes} {errno : Errno} {ds ds' : List Delivery}
  {outcome : Except (Stop Fault) (List Bytes)}

/-- What a session can be asked for. -/
inductive Call
  | links
  | link (index : Int32)
  | addresses (family : UInt8) (index : UInt32)
  | request (r : Request) (operation : String)
  | dump (r : Request) (operation : String)

/-- What a call returns. -/
inductive Response
  | links (outcome : Except (Stop Fault) (List LinkEntry))
  | link (outcome : Except (Stop Fault) (Option LinkEntry))
  | addresses (outcome : Except (Stop Fault) (List AddressEntry))
  | payloads (outcome : Except (Stop Fault) (List Bytes))

/-- All that the response tells is in messages that are its own. That there is no such link is told
by one as well. -/
def Response.OwnedBy (own : Frame → Prop) : Response → Prop
  | .links outcome => Owned own (Decodes LinkEntry.decode) outcome
  | .link outcome => Owned own (Decodes LinkEntry.decode) (outcome.map (·.toList)) ∧
      (outcome = .ok none → ∃ f, own f ∧ f.header.kind = Kind.error)
  | .addresses outcome => Owned own (Decodes AddressEntry.decode) outcome
  | .payloads outcome => Owned own (· = ·) outcome

theorem Response.OwnedBy.mono {response : Response} (h : response.OwnedBy own)
    (hm : ∀ f, own f → own' f) : response.OwnedBy own' := by
  cases response with
  | links outcome => exact Owned.mono h hm
  | link outcome =>
    refine ⟨Owned.mono h.1 hm, fun ho => ?_⟩
    obtain ⟨f, hf, hk⟩ := h.2 ho
    exact ⟨f, hm f hf, hk⟩
  | addresses outcome => exact Owned.mono h hm
  | payloads outcome => exact Owned.mono h hm

theorem decodeAll_owned (hd : ∀ b fault, decode b = .error fault → fault.isOfReply = true)
    (h : Owned own (· = ·) outcome) :
    Owned own (Decodes decode) (Session.decodeAll decode outcome) := by
  rcases decodes_or_spoiled decode outcome with ⟨bs, xs, rfl, decodable⟩ | ⟨stop, spoiled⟩
  · rw [decodable.decodeAll_eq]
    intro x hx
    obtain ⟨b, hb, hread⟩ := exists_mem_of_forall₂ decodable.flip hx
    obtain ⟨f, hf, rfl⟩ := h b hb
    exact ⟨f, hf, hread⟩
  · rw [spoiled.decodeAll_eq]
    cases spoiled with
    | failed => exact h
    | undecodable decodable fails =>
      exact owned_of_isLocal (Fault.isLocal_of_isOfReply (hd _ _ fails))

theorem firstLink_owned (h : Owned own (· = ·) outcome) :
    Owned own (Decodes LinkEntry.decode) ((Session.firstLink outcome).map (·.toList)) := by
  cases outcome with
  | error stop =>
    cases stop with
    | fault fault =>
      rw [Session.firstLink_fault]
      split_ifs
      · intro e he
        cases he
      · exact h
    | overflow => exact h
  | ok bs =>
    cases bs with
    | nil =>
      rw [Session.firstLink_nil]
      intro e he
      cases he
    | cons b bs =>
      rw [Session.firstLink_cons]
      cases hb : LinkEntry.decode b with
      | error fault =>
        exact owned_of_isLocal (Fault.isLocal_of_isOfReply (Cursor.isOfReply_of_record hb))
      | ok e =>
        intro x hx
        obtain rfl := List.mem_singleton.mp hx
        obtain ⟨f, hf, rfl⟩ := h b List.mem_cons_self
        exact ⟨f, hf, hb⟩

namespace Call

def perform (s : Session) : Call → Response × Session
  | .links => (.links s.links.1, s.links.2)
  | .link index => (.link (s.link? index).1, (s.link? index).2)
  | .addresses family index =>
    (.addresses (s.addresses family index).1, (s.addresses family index).2)
  | .request r operation => (.payloads (s.request r operation).1, (s.request r operation).2)
  | .dump r operation => (.payloads (s.dump r operation).1, (s.dump r operation).2)

/-- The one request that a call sends. -/
def sends : Call → Request
  | .links => Session.linksRequest
  | .link index => Session.linkRequest index
  | .addresses family index => Session.addressesRequest family index
  | .request r _ => r
  | .dump r _ => r

def collects : Call → Session.Collector
  | .links => fun seq => Dump.collect seq "link dump" {}
  | .link index => fun seq => Reply.collect seq s!"getting link {index.toInt}"
  | .addresses _ _ => fun seq => Dump.collect seq "address dump" {}
  | .request _ operation => fun seq => Reply.collect seq operation
  | .dump _ operation => fun seq => Dump.collect seq operation {}

def reads (outcome : Except (Stop Fault) (List Bytes)) : Call → Response
  | .links => .links (Session.decodeAll LinkEntry.decode outcome)
  | .link _ => .link (Session.firstLink outcome)
  | .addresses _ _ => .addresses (Session.decodeAll AddressEntry.decode outcome)
  | .request _ _ => .payloads outcome
  | .dump _ _ => .payloads outcome

/-- Every call is one exchange. -/
theorem perform_eq (s : Session) (c : Call) :
    c.perform s =
      (c.reads (s.exchange c.sends c.collects).1, (s.exchange c.sends c.collects).2) := by
  cases c <;> rfl

theorem selective (c : Call) : Selective c.collects := by
  cases c with
  | links => exact Dump.selective _
  | link index => exact Reply.selective _
  | addresses family index => exact Dump.selective _
  | request r operation => exact Reply.selective _
  | dump r operation => exact Dump.selective _

theorem ownedBy_reads (c : Call) (h : Owned own (· = ·) outcome)
    (hn : ∀ index, c = .link index → Session.firstLink outcome = .ok none →
      ∃ f, own f ∧ f.header.kind = Kind.error) :
    (c.reads outcome).OwnedBy own := by
  cases c with
  | links => exact decodeAll_owned (fun _ _ => Cursor.isOfReply_of_record) h
  | link index => exact ⟨firstLink_owned h, hn index rfl⟩
  | addresses family index => exact decodeAll_owned (fun _ _ => Cursor.isOfReply_of_record) h
  | request r operation => exact h
  | dump r operation => exact h

theorem ownedBy_collected (c : Call) (seq : UInt32) (ds : List Delivery) :
    (c.reads (c.collects seq ds).1).OwnedBy (ArrivesAs ds seq) := by
  refine c.ownedBy_reads (c.selective.owned seq ds) ?_
  rintro index rfl
  exact (Reply.collect_told seq _ ds).nothing

/-- A call that was not sent has nothing to tell. -/
theorem ownedBy_unsent (c : Call) (errno : Errno) :
    (c.reads (.error (.fault (.io errno)))).OwnedBy own :=
  c.ownedBy_reads (owned_of_isLocal rfl) fun _ _ => nofun

end Call

namespace Session

theorem exchange_of_fault (hs : s.sendFault s.nextSeq = some errno) (r : Request)
    (collector : Collector) :
    s.exchange r collector = (.error (.fault (.io errno)), { s with nextSeq := s.nextSeq + 1 }) := by
  simp [exchange, hs]

theorem nextSeq_exchange (s : Session) (r : Request) (collector : Collector) :
    (s.exchange r collector).2.nextSeq = s.nextSeq + 1 := by
  cases hs : s.sendFault s.nextSeq with
  | none => rw [exchange_eq hs, after]
  | some errno => rw [exchange_of_fault hs]

theorem sendFault_exchange (s : Session) (r : Request) (collector : Collector) :
    (s.exchange r collector).2.sendFault = s.sendFault := by
  cases hs : s.sendFault s.nextSeq with
  | none => rw [exchange_eq hs, after]
  | some errno => rw [exchange_of_fault hs]

theorem deliveries_exchange (hc : Selective collector) :
    (s.exchange r collector).2.deliveries <:+ s.deliveries := by
  cases hs : s.sendFault s.nextSeq with
  | none =>
    rw [exchange_eq hs]
    exact hc.suffix _ _
  | some errno => rw [exchange_of_fault hs]

/-- The session with other deliveries to come. -/
def receiving (s : Session) (ds : List Delivery) : Session := { s with deliveries := ds }

/-- Foreign datagrams do not change what a request comes to. -/
theorem exchange_strewn (hc : Selective collector) (hn : numbers s.nextSeq)
    (h : Strewn numbers s.deliveries ds') :
    ∃ rest, Strewn numbers (s.exchange r collector).2.deliveries rest ∧
      (s.receiving ds').exchange r collector =
        ((s.exchange r collector).1, (s.exchange r collector).2.receiving rest) := by
  cases hs : s.sendFault s.nextSeq with
  | none =>
    have hs' : (s.receiving ds').sendFault (s.receiving ds').nextSeq = none := hs
    obtain ⟨heq, hrest⟩ := hc.strewn _ _ _ _ hn h
    rw [exchange_eq hs, exchange_eq hs', ← heq]
    exact ⟨_, hrest, rfl⟩
  | some errno =>
    have hs' : (s.receiving ds').sendFault (s.receiving ds').nextSeq = some errno := hs
    rw [exchange_of_fault hs, exchange_of_fault hs']
    exact ⟨_, h, rfl⟩

end Session

namespace Call

theorem perform_strewn (c : Call) (hn : numbers s.nextSeq) (h : Strewn numbers s.deliveries ds') :
    ∃ rest, Strewn numbers (c.perform s).2.deliveries rest ∧
      c.perform (s.receiving ds') = ((c.perform s).1, (c.perform s).2.receiving rest) := by
  obtain ⟨rest, hrest, heq⟩ := Session.exchange_strewn c.selective hn h
  rw [perform_eq, perform_eq, heq]
  exact ⟨rest, hrest, rfl⟩

theorem nextSeq_perform (c : Call) (s : Session) : (c.perform s).2.nextSeq = s.nextSeq + 1 := by
  rw [perform_eq]
  exact Session.nextSeq_exchange _ _ _

theorem sendFault_perform (c : Call) (s : Session) : (c.perform s).2.sendFault = s.sendFault := by
  rw [perform_eq]
  exact Session.sendFault_exchange _ _ _

theorem deliveries_perform (c : Call) (s : Session) :
    (c.perform s).2.deliveries <:+ s.deliveries := by
  rw [perform_eq]
  exact Session.deliveries_exchange c.selective

/-- The call is made under this number: the message that it sends carries it, and so does every
message among the deliveries that tells something of what the call returns. -/
structure Under (n : ℕ) (ds : List Delivery) (c : Call) (s : Session) : Prop where
  number : s.nextSeq.toNat = n
  sent : s.sendFault s.nextSeq = none → ∃ message header,
    (c.perform s).2.sent = message :: s.sent ∧ Header.read message = .ok header ∧
      header.seq.toNat = n
  unsent : s.sendFault s.nextSeq ≠ none → (c.perform s).2.sent = s.sent
  owned : (c.perform s).1.OwnedBy fun f => Arrives ds f ∧ f.header.seq.toNat = n

theorem ownedBy_perform (c : Call) (s : Session) :
    (c.perform s).1.OwnedBy (ArrivesAs s.deliveries s.nextSeq) := by
  rw [perform_eq]
  cases hs : s.sendFault s.nextSeq with
  | none =>
    rw [Session.exchange_eq hs]
    exact c.ownedBy_collected _ _
  | some errno =>
    rw [Session.exchange_of_fault hs]
    exact c.ownedBy_unsent errno

theorem under_nextSeq (c : Call) (hd : s.deliveries ⊆ ds) : c.Under s.nextSeq.toNat ds s where
  number := rfl
  sent := by
    intro hs
    rw [perform_eq, Session.exchange_eq hs]
    exact ⟨_, _, rfl, Header.read_bytes_append _ _, rfl⟩
  unsent := by
    intro hs
    obtain ⟨errno, hs⟩ := Option.ne_none_iff_exists'.mp hs
    rw [perform_eq, Session.exchange_of_fault hs]
  owned := by
    refine (c.ownedBy_perform s).mono ?_
    rintro f ⟨hf, hseq⟩
    exact ⟨hf.of_subset hd, congrArg UInt32.toNat hseq⟩

end Call

namespace Session

variable {cs : List Call}

/-- The calls in turn, whatever came of those before. -/
def run (s : Session) : List Call → List Response × Session
  | [] => ([], s)
  | c :: cs =>
    let (response, s) := c.perform s
    let (responses, s) := run s cs
    (response :: responses, s)

@[simp] theorem run_nil (s : Session) : s.run [] = ([], s) := rfl

@[simp] theorem run_cons (s : Session) (c : Call) (cs : List Call) :
    s.run (c :: cs) =
      ((c.perform s).1 :: ((c.perform s).2.run cs).1, ((c.perform s).2.run cs).2) := rfl

/-- Every call takes up one number, whatever comes of it. -/
theorem nextSeq_run (s : Session) (cs : List Call) :
    (s.run cs).2.nextSeq = s.nextSeq + .ofNat cs.length := by
  induction cs generalizing s with
  | nil => simp
  | cons c cs ih =>
    rw [run_cons, ih, Call.nextSeq_perform, List.length_cons, UInt32.ofNat_add, UInt32.add_assoc,
      UInt32.add_comm 1]
    rfl

theorem sendFault_run (s : Session) (cs : List Call) : (s.run cs).2.sendFault = s.sendFault := by
  induction cs generalizing s with
  | nil => rfl
  | cons c cs ih => exact (ih _).trans (c.sendFault_perform s)

theorem deliveries_run (s : Session) (cs : List Call) :
    (s.run cs).2.deliveries <:+ s.deliveries := by
  induction cs generalizing s with
  | nil => exact List.suffix_rfl
  | cons c cs ih => exact (ih _).trans (c.deliveries_perform s)

theorem getElem?_run (s : Session) (cs : List Call) (k : ℕ) :
    (s.run cs).1[k]? = cs[k]?.map fun c => (c.perform (s.run (cs.take k)).2).1 := by
  induction cs generalizing s k with
  | nil => rfl
  | cons c cs ih =>
    cases k with
    | zero => rfl
    | succ k => exact ih _ k

/-- The two runs go through the same states, apart from foreign datagrams that are still to come. -/
theorem run_strewn (h : Strewn numbers s.deliveries ds')
    (hn : ∀ k < cs.length, numbers (s.nextSeq + .ofNat k)) :
    ((s.receiving ds').run cs).1 = (s.run cs).1 := by
  induction cs generalizing s ds' with
  | nil => rfl
  | cons c cs ih =>
    have hfirst : numbers s.nextSeq := by simpa using hn 0 (Nat.succ_pos _)
    obtain ⟨rest, hrest, heq⟩ := c.perform_strewn hfirst h
    -- the calls that are left have the numbers after the first one
    have hnext : ∀ k < cs.length, numbers ((c.perform s).2.nextSeq + .ofNat k) := by
      intro k hk
      have hnum := hn (k + 1) (Nat.succ_lt_succ hk)
      rw [UInt32.ofNat_add, UInt32.add_comm (.ofNat k), ← UInt32.add_assoc] at hnum
      rw [c.nextSeq_perform]
      exact hnum
    rw [run_cons, run_cons, heq, ih hrest hnext]

/-- The numbers of a session begin with one, and fewer than all are taken. -/
theorem toNat_one_add {n : ℕ} (h : n + 1 < 2 ^ 32) : (1 + UInt32.ofNat n).toNat = n + 1 := by
  have hn : n < 2 ^ 32 := Nat.lt_of_succ_lt h
  rw [UInt32.toNat_add, UInt32.toNat_ofNat', Nat.mod_eq_of_lt hn, UInt32.toNat_one, Nat.add_comm 1,
    Nat.mod_eq_of_lt h]

/-- Each call over a new session is made under its place among the calls as its number, whatever
came of the calls before it and of its own attempt to send, and all that it tells comes from messages
with this number. Whole datagrams that have no message with the number of any call change nothing,
wherever they come. -/
theorem run_isolated (portId : UInt32) (sendFault : UInt32 → Option Errno) (ds : List Delivery)
    (hl : cs.length < 2 ^ 32) :
    (∀ (k : ℕ) (c : Call), cs[k]? = some c →
      (run { portId, sendFault, deliveries := ds } cs).1[k]? =
        some (c.perform (run { portId, sendFault, deliveries := ds } (cs.take k)).2).1 ∧
      (run { portId, sendFault, deliveries := ds } (cs.take k)).2.sendFault = sendFault ∧
      c.Under (k + 1) ds (run { portId, sendFault, deliveries := ds } (cs.take k)).2) ∧
    ∀ ds', Strewn (fun n => 1 ≤ n.toNat ∧ n.toNat ≤ cs.length) ds ds' →
      (run { portId, sendFault, deliveries := ds' } cs).1 =
        (run { portId, sendFault, deliveries := ds } cs).1 := by
  constructor
  · intro k c hc
    obtain ⟨hk, -⟩ := List.getElem?_eq_some_iff.mp hc
    have hnext : (run { portId, sendFault, deliveries := ds } (cs.take k)).2.nextSeq.toNat =
        k + 1 := by
      rw [nextSeq_run, List.length_take_of_le hk.le]
      exact toNat_one_add (by omega)
    refine ⟨by rw [getElem?_run, hc]; rfl, sendFault_run _ _, ?_⟩
    rw [← hnext]
    exact c.under_nextSeq (deliveries_run _ _).subset
  · intro ds' h
    refine run_strewn (s := { portId, sendFault, deliveries := ds }) h fun k hk => ?_
    rw [toNat_one_add (by omega)]
    omega

/-- The first call is not sent; a dump and a question about a link are. -/
def someCalls : List Call := [.links, .dump (.dump Kind.getLink) "link dump", .link 5]

def firstUnsent (seq : UInt32) : Option Errno := if seq = 1 then some .notPermitted else none

/-- A message of another request. -/
def stray : Frame := ⟨⟨20, Kind.newLink, 0, 9, 0⟩, [9, 9, 9, 9]⟩

/-- The dump, a message of it that comes too late, and a denial. -/
def someReplies : List Delivery := [
  datagramOf [⟨⟨20, Kind.newLink, 0x2, 2, 0⟩, [1, 2, 3, 4]⟩, ⟨⟨16, Kind.done, 0x2, 2, 0⟩, []⟩],
  datagramOf [⟨⟨20, Kind.newLink, 0x2, 2, 0⟩, [5, 6, 7, 8]⟩],
  datagramOf [⟨⟨36, Kind.error, 0, 3, 0⟩, [237, 255, 255, 255] ++ List.replicate 16 0⟩]]

/-- The third call is made under the number three and passes over what the second one left, and what
strays in before the denial changes nothing. -/
theorem run_isolated_someCalls :
    someCalls.length < 2 ^ 32 ∧
    (run { portId := 7, sendFault := firstUnsent, deliveries := someReplies } someCalls).1 =
      [.links (.error (.fault (.io .notPermitted))), .payloads (.ok [[1, 2, 3, 4]]),
        .link (.ok none)] ∧
    Call.Under 3 someReplies (.link 5)
      (run { portId := 7, sendFault := firstUnsent, deliveries := someReplies }
        (someCalls.take 2)).2 ∧
    (run { portId := 7, sendFault := firstUnsent, deliveries :=
      someReplies.take 2 ++ datagramOf [stray] :: someReplies.drop 2 } someCalls).1 =
        (run { portId := 7, sendFault := firstUnsent, deliveries := someReplies } someCalls).1 := by
  have hl : someCalls.length < 2 ^ 32 := by decide
  have hforeign : Foreign (fun n => 1 ≤ n.toNat ∧ n.toNat ≤ someCalls.length)
      (Frame.encodeAll [stray]) :=
    foreign_encodeAll (by decide) (by decide +kernel) (by decide)
  have hstrewn : Strewn (fun n => 1 ≤ n.toNat ∧ n.toNat ≤ someCalls.length) someReplies
      (someReplies.take 2 ++ datagramOf [stray] :: someReplies.drop 2) :=
    .keep _ (.keep _ (.insert hforeign (.keep _ .nil)))
  obtain ⟨hcalls, hsame⟩ := run_isolated 7 firstUnsent someReplies hl
  refine ⟨hl, by cbv, ?_, hsame _ hstrewn⟩
  exact (hcalls 2 (.link 5) rfl).2.2

end Session
end VethPeer
