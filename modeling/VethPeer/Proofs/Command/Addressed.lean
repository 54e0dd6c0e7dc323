import Mathlib
import VethPeer.Proofs.Command.Handover
import VethPeer.Proofs.Ip.Text

/-! How a worker process reads the address that it is started with. -/
namespace VethPeer

theorem Target.ofAddress_text (a : Ip) : Target.ofAddress a.text = .ok (.address a) := by
  rw [ofAddress, Ip.ofText?_text]

namespace Command

theorem not_readsAsOption_address (a : Ip) : ¬ ReadsAsOption a.text := by
  intro ho
  obtain ⟨c, cs, he⟩ := readsAsOption_iff.mp ho
  rw [Ip.text, String.toList_ofList] at he
  have hdash : '-' ∈ a.chars := he ▸ List.mem_cons_self
  rcases Ip.mem_chars hdash with h | h | h <;> cases h

theorem zero_notMem_address (a : Ip) : '\x00' ∉ a.text.toList := by
  rw [Ip.text, String.toList_ofList]
  intro hzero
  rcases Ip.mem_chars hzero with h | h | h <;> cases h

/-- Every address keeps its meaning through the text that a worker is given: it is read back as the
same target, of the same family, with the same candidate, and every worker reports what is found of
this address in its candidate's namespace. -/
theorem address_handed_over (pid : UInt32) (a : Ip) :
    (∃ text, (Target.address a).arguments = ["--address", text] ∧
      Target.ofAddress text = .ok (.address a)) ∧
    (∃ arguments, Worker.parse (Worker.arguments pid (.address a)) = .ok arguments ∧
      arguments.pid = pid ∧ arguments.target = .ok (.address a)) ∧
    ∀ w candidates, Resolve.jobs w (.address a) candidates = candidates.map fun c =>
      ⟨c, .ok (heard c (Probe.run w c (.address a)))⟩ := by
  have hback : (Target.address a).ReadsBack := Target.ofAddress_text a
  have hparse := Worker.parse_arguments pid (.address a)
  have hvalue : ¬ ReadsAsOption (Target.address a).value := not_readsAsOption_address a
  have hzero : '\x00' ∉ (Target.address a).value.toList := zero_notMem_address a
  rw [if_neg hvalue] at hparse
  refine ⟨⟨a.text, rfl, Target.ofAddress_text a⟩, ⟨_, hparse, rfl, Worker.target_of hback pid⟩, ?_⟩
  intro w candidates
  simp only [jobs_eq w hback, if_neg hvalue, if_neg hzero]

end Command
end VethPeer
