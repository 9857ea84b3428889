import Mathlib.Data.List.Nodup

/-!
# Exclusive ownership

Owners hold resources that have been taken from a pool. Ownership is exclusive when
every resource held has been taken and no resource has two owners. A step that
hands out some taken resources, different from each other and held by nobody, keeps
it exclusive (`Exclusive.grant`).
-/

set_option autoImplicit false

namespace KernelV.Library

universe u v

variable {ω : Type u} {ρ : Type v}

/-- Everything held has been taken, and by one owner. -/
structure Exclusive (holds : ω → ρ → Prop) (taken : ρ → Prop) : Prop where
  taken : ∀ owner resource, holds owner resource → taken resource
  unique : ∀ owner other resource, holds owner resource → holds other resource → owner = other

/-- **Handing out different resources that nobody holds keeps ownership exclusive.** -/
theorem Exclusive.grant {holds holds' : ω → ρ → Prop} {taken taken' : ρ → Prop}
    (exclusive : Exclusive holds taken) (kept : ∀ resource, taken resource → taken' resource)
    (grants : List (ω × ρ))
    (origin : ∀ owner resource, holds' owner resource →
      holds owner resource ∨ (owner, resource) ∈ grants)
    (fresh : ∀ grant ∈ grants, taken' grant.2 ∧ ∀ owner, ¬ holds owner grant.2)
    (apart : (grants.map Prod.snd).Nodup) : Exclusive holds' taken' where
  taken owner resource held := by
    rcases origin owner resource held with old | new
    · exact kept resource (exclusive.taken owner resource old)
    · exact (fresh _ new).1
  unique owner other resource held heldOther := by
    rcases origin owner resource held with old | new
    · rcases origin other resource heldOther with oldOther | newOther
      · exact exclusive.unique owner other resource old oldOther
      · exact absurd old ((fresh _ newOther).2 owner)
    · rcases origin other resource heldOther with oldOther | newOther
      · exact absurd oldOther ((fresh _ new).2 other)
      · exact congrArg Prod.fst (List.inj_on_of_nodup_map apart new newOther rfl)

end KernelV.Library
