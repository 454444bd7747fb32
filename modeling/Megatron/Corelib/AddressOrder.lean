import Megatron.Corelib.Address
import Megatron.Lib.TotalOrder

/-!
# Comparing socket addresses

`msockaddr_in::operator<` and `operator==`, as a `std::set` or a `std::map`
uses them that has the addresses of peers for its keys.

## Main results

* `eq_iff_read` — what two equal addresses have in common.
* `orders_addresses` — a total order of what `==` tells apart, so a container
  holds exactly one address for each peer.
-/

namespace Megatron.Corelib.MsockaddrIn

open Megatron.Lib

/-- The family, the port and the part of the union that the family says is in
use; of the other part nothing. -/
def SameRead (a b : MsockaddrIn) : Prop :=
  a.family8 = b.family8 ∧ a.port = b.port ∧ (a.family8 = 2 → a.sAddr = b.sAddr) ∧
    (a.family8 = 10 → a.sin6Addr = b.sin6Addr)

variable {a b : MsockaddrIn}

theorem host_inj_of_v4 (ha : a.family8 = 2) (hb : b.family8 = 2) :
    a.host = b.host ↔ a.sAddr = b.sAddr := by
  rw [host, host, if_pos ha, if_pos hb, List.cons.injEq, UInt32.toNat_inj, and_iff_left rfl]

theorem host_inj_of_v6 (ha : a.family8 = 10) (hb : b.family8 = 10) :
    a.host = b.host ↔ a.sin6Addr = b.sin6Addr := by
  have hNot : ¬ (10 : Int8) = 2 := by decide
  rw [host, host, if_neg (ha ▸ hNot), if_neg (hb ▸ hNot),
    (List.map_injective_iff.2 fun x y => UInt8.toNat_inj.1).eq_iff, Vector.toList_inj]

/-- Equal addresses agree in what is read of them. -/
theorem eq_iff_read (ha : a.IsInet) : a.eq b = .ok true ↔ a.SameRead b := by
  have hKey : a.key = b.key ↔ a.family8 = b.family8 ∧ a.host = b.host ∧ a.port = b.port := by
    simp only [key, EmbeddingLike.apply_eq_iff_eq, Prod.mk.injEq, Int8.toInt_inj, UInt16.toNat_inj]
  rw [eq_eq ha, Except.ok.injEq, decide_eq_true_eq, hKey, SameRead]
  refine and_congr_right fun hFamily => ?_
  rcases ha with h4 | h6
  · have hNot : ¬ a.family8 = 10 := by
      rw [h4]
      decide
    rw [host_inj_of_v4 h4 (hFamily ▸ h4), forall_prop_of_true h4, forall_prop_of_false hNot,
      and_true, and_comm]
  · have hNot : ¬ a.family8 = 2 := by
      rw [h6]
      decide
    rw [host_inj_of_v6 h6 (hFamily ▸ h6), forall_prop_of_true h6, forall_prop_of_false hNot,
      true_and, and_comm]

/-- **Addresses are ordered**, up to `==`, by what is read of them; whichever
are put into a container, one of each is in it. -/
theorem orders_addresses :
    TotalUpTo {a | IsInet a} lt eq ∧ KeepsClasses {a | IsInet a} lt eq ∧
      ∀ a b, IsInet a → (a.eq b = .ok true ↔ a.SameRead b) := by
  have hLt : ∀ a ∈ {a | IsInet a}, ∀ b ∈ {b | IsInet b}, lt a b = .ok (decide (a.key < b.key)) :=
    fun a ha b _ => lt_eq ha b
  have hEq : ∀ a ∈ {a | IsInet a}, ∀ b ∈ {b | IsInet b},
      eq a b = .ok (@decide (a.key = b.key) (LinearOrder.toDecidableEq _ _)) := by
    intro a ha b _
    rw [eq_eq ha]
    congr
  exact ⟨TotalUpTo.of_key hLt hEq, keepsClasses_of_key hLt hEq, fun a b ha => eq_iff_read ha⟩

end Megatron.Corelib.MsockaddrIn
