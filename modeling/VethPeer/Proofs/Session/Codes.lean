import Mathlib
import VethPeer.Fault

/-! Codes that the kernel answers with, and the error numbers that they stand for. -/
namespace VethPeer

variable {code : Int32} {errno : Errno} {fault : Fault} {operation : String}
  {make : Errno → Fault}

namespace Errno

theorem negOverflow_iff : code.toBitVec.negOverflow = true ↔ code = Int32.minValue := by
  simp [BitVec.negOverflow, ← Int32.toInt_inj]

/-- The lowest code of all is the only one that stands for no number. -/
theorem ofCode?_eq_none_iff : ofCode? code = none ↔ code = Int32.minValue := by
  simp [ofCode?, negOverflow_iff]

/-- A code stands for the number that is its negative as integers are. -/
theorem ofCode?_eq_some_iff : ofCode? code = some errno ↔ errno.toInt = -code.toInt := by
  by_cases hmin : code = Int32.minValue
  · have hlt := errno.toInt_lt
    rw [ofCode?_eq_none_iff.mpr hmin, hmin, Int32.toInt_minValue]
    simp only [reduceCtorEq, false_iff]
    omega
  · have hneg : (-code).toInt = -code.toInt :=
      BitVec.toInt_neg_of_not_negOverflow (mt negOverflow_iff.mp hmin)
    rw [ofCode?, if_neg (mt negOverflow_iff.mp hmin), Option.some_inj, ← Int32.toInt_inj, hneg]
    exact eq_comm

/-- The number that a code stands for is this one if the code is its negative. -/
theorem eq_iff_of_toInt (h : errno.toInt = -code.toInt) (n : Errno) : errno = n ↔ code = -n := by
  have hcode := ofCode?_eq_some_iff.mpr h
  rw [ofCode?, Option.ite_none_left_eq_some, Option.some_inj] at hcode
  rw [← hcode.2, ← Int32.neg_inj, Int32.neg_neg]

end Errno

namespace Stop

/-- The lowest code of all breaks the program off, and no other does. -/
theorem ofNegated_eq_overflow_iff : ofNegated make code = .overflow ↔ code = Int32.minValue := by
  rw [← Errno.ofCode?_eq_none_iff, ofNegated]
  cases Errno.ofCode? code <;> simp

theorem ofNegated_eq_fault_iff :
    ofNegated make code = .fault fault ↔
      ∃ errno, errno.toInt = -code.toInt ∧ fault = make errno := by
  simp only [← Errno.ofCode?_eq_some_iff]
  rw [ofNegated]
  cases Errno.ofCode? code <;> simp [eq_comm]

theorem ofRefusal_eq_overflow_iff :
    ofRefusal operation code = .overflow ↔ code = Int32.minValue := ofNegated_eq_overflow_iff

theorem ofRefusal_eq_fault_iff :
    ofRefusal operation code = .fault fault ↔
      ∃ errno, errno.toInt = -code.toInt ∧ fault = .refused operation errno :=
  ofNegated_eq_fault_iff

/-- The code that the kernel answered with. -/
def code? : Stop Fault → Option Int32
  | .fault fault => fault.errno?.map (-·)
  | .overflow => some Int32.minValue

theorem code?_ofRefusal (operation : String) (code : Int32) :
    (ofRefusal operation code).code? = some code := by
  cases hstop : ofRefusal operation code with
  | fault fault =>
    obtain ⟨errno, herrno, rfl⟩ := ofRefusal_eq_fault_iff.mp hstop
    rw [(Errno.eq_iff_of_toInt herrno _).mpr Int32.neg_neg.symm]
    simp [code?, Fault.errno?]
  | overflow => rw [code?, ofRefusal_eq_overflow_iff.mp hstop]

end Stop

namespace Fault

theorem isNotFound_refused (h : errno.toInt = -code.toInt) :
    (refused operation errno).isNotFound = true ↔ code = -2 ∨ code = -19 := by
  simp only [isNotFound, decide_eq_true_eq, Errno.eq_iff_of_toInt h]
  rfl

theorem isPermission_refused (h : errno.toInt = -code.toInt) :
    (refused operation errno).isPermission = true ↔ code = -1 ∨ code = -13 := by
  simp only [isPermission, Errno.isPermission, decide_eq_true_eq, Errno.eq_iff_of_toInt h]
  rfl

end Fault
end VethPeer
