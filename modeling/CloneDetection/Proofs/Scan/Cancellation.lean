import CloneDetection.Proofs.Double.Order
import CloneDetection.Scan.Cancellation

/-!
# A cancelled token stays cancelled

Neither a request nor a clock that goes on can undo a cancellation.
-/
namespace CloneDetection

namespace Token

theorem isCancelled_cancel (token : Token) (now : Double) :
    token.cancel.isCancelled now = true := by
  simp [cancel, isCancelled]

theorem isCancelled_of_le {token : Token} {now later : Double} (h : token.isCancelled now = true)
    (hle : now ≤ later) : token.isCancelled later = true := by
  simp only [isCancelled, isExpired, Bool.or_eq_true, Option.any_eq_true, decide_eq_true_eq] at h ⊢
  obtain hrequested | ⟨deadline, hdeadline, hexpired⟩ := h
  · exact .inl hrequested
  · exact .inr ⟨deadline, hdeadline, Double.le_trans hexpired hle⟩

theorem isCancelled_of_check {token : Token} {now : Double} {cause : Cancellation}
    (h : token.check now = some cause) : token.isCancelled now = true := by
  rw [← Bool.not_eq_false, ← check_eq_none_iff, h]
  simp

end Token

end CloneDetection
