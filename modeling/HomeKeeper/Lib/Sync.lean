import Mathlib.Order.Basic

/-!
# Mutual exclusion by an owner

`Guards owner inside` says that a mutex with owner `owner` keeps the critical section to its
holder: whoever is inside is the owner. A thread moves in one of three ways, and each has a
rule: it acquires the free mutex (`Guards.acquire`), it releases the mutex it holds
(`Guards.release`), or the mutex stays as it is (`Guards.keep`). In all three the other threads
enter nothing.
-/

namespace Sync

variable {T : Type*} {owner : Option T} {inside inside' : T → Prop} {t : T}

def Guards (owner : Option T) (inside : T → Prop) : Prop := ∀ t, inside t → owner = some t

theorem Guards.unique (h : Guards owner inside) {u : T} (ht : inside t) (hu : inside u) :
    t = u := by
  have heq := (h t ht).symm.trans (h u hu)
  exact Option.some.inj heq

theorem Guards.keep (h : Guards owner inside) (hothers : ∀ u, u ≠ t → inside' u → inside u)
    (hself : inside' t → inside t) : Guards owner inside' := by
  intro u hu
  by_cases hut : u = t
  · subst hut
    exact h u (hself hu)
  · exact h u (hothers u hut hu)

theorem Guards.acquire (h : Guards owner inside) (hfree : owner = none)
    (hothers : ∀ u, u ≠ t → inside' u → inside u) : Guards (some t) inside' := by
  intro u hu
  by_cases hut : u = t
  · rw [hut]
  · -- nobody was inside while the mutex was free
    have hown := h u (hothers u hut hu)
    rw [hfree] at hown
    cases hown

theorem Guards.release (h : Guards owner inside) (ht : inside t)
    (hothers : ∀ u, u ≠ t → inside' u → inside u) (hself : ¬ inside' t) :
    Guards none inside' := by
  intro u hu
  by_cases hut : u = t
  · exact absurd (hut ▸ hu) hself
  · exact absurd (h.unique (hothers u hut hu) ht) hut

end Sync
