import AgoraEtl.Data.OrderedDict
import Mathlib.Data.List.Induction

/-!
# Grouping by key

`OrderedDict.group` collects the values of a list of entries under their keys, in the order in which
the keys first occur.  Going through the groups one after the other does the same as going through
the entries in their order, provided that the steps of different keys commute.
-/

universe u v

variable {κ α : Type*} {σ : Type u} [DecidableEq κ]

namespace OrderedDict

/-- The value at the end of the list under its key, which is made if it is missing. -/
def append (d : OrderedDict κ (List α)) (key : κ) (value : α) : OrderedDict κ (List α) :=
  d.set key ((d.get? key).getD [] ++ [value])

/-- The values under their keys. -/
def group (entries : List (κ × α)) : OrderedDict κ (List α) :=
  entries.foldl (fun d entry => d.append entry.1 entry.2) empty

@[simp]
theorem group_nil : group ([] : List (κ × α)) = empty := rfl

@[simp]
theorem group_append_singleton (entries : List (κ × α)) (entry : κ × α) :
    group (entries ++ [entry]) = (group entries).append entry.1 entry.2 := by
  rw [group, List.foldl_append]
  rfl

theorem get?_append (d : OrderedDict κ (List α)) (key : κ) (value : α) (key' : κ) :
    (d.append key value).get? key' =
      if key' = key then some ((d.get? key).getD [] ++ [value]) else d.get? key' :=
  get?_set d key _ key'

/-- What is grouped under a key was there with that key. -/
theorem mem_of_mem_group {entries : List (κ × α)} {key : κ} {values : List α} {value : α}
    (hgroup : (key, values) ∈ (group entries).entries) (hvalue : value ∈ values) :
    (key, value) ∈ entries := by
  rw [mem_entries_iff] at hgroup
  induction entries using List.reverseRecOn generalizing values with
  | nil => simp at hgroup
  | append_singleton entries entry ih =>
    rw [group_append_singleton, get?_append] at hgroup
    rw [List.mem_append]
    split at hgroup
    next hkey =>
      subst hkey
      obtain rfl := Option.some.inj hgroup
      rcases List.mem_append.mp hvalue with hold | hnew
      · cases hfound : (group entries).get? entry.1 with
        | none => simp [hfound] at hold
        | some values =>
          rw [hfound] at hold
          exact .inl (ih hfound hold)
      · obtain rfl := List.mem_singleton.mp hnew
        exact .inr List.mem_cons_self
    next => exact .inl (ih hgroup hvalue)

variable {m : Type u → Type v} [Monad m] [LawfulMonad m] {step : κ → σ → α → m σ}

/-- The steps of a group, one after the other. -/
def runGroup (step : κ → σ → α → m σ) (s : σ) (group : κ × List α) : m σ :=
  group.2.foldlM (step group.1) s

/-- A step that commutes with those of a list comes before or after them. -/
theorem foldlM_bind_comm {f : σ → α → m σ} {g : σ → m σ} {values : List α}
    (hcomm : ∀ value ∈ values, ∀ s, f s value >>= g = g s >>= (f · value)) (s : σ) :
    values.foldlM f s >>= g = g s >>= (values.foldlM f ·) := by
  induction values generalizing s with
  | nil => simp
  | cons value values ih =>
    have hrest := ih fun value hmem => hcomm value (List.mem_cons_of_mem _ hmem)
    calc (value :: values).foldlM f s >>= g
        = f s value >>= fun s => values.foldlM f s >>= g := by rw [List.foldlM_cons, bind_assoc]
      _ = f s value >>= fun s => g s >>= (values.foldlM f ·) := by simp only [hrest]
      _ = (f s value >>= g) >>= (values.foldlM f ·) := by rw [bind_assoc]
      _ = g s >>= fun s => f s value >>= (values.foldlM f ·) := by
        rw [hcomm value List.mem_cons_self, bind_assoc]
      _ = g s >>= ((value :: values).foldlM f ·) := by simp only [List.foldlM_cons]

/-- A value more in its group is a step more at the end, if it commutes with the steps of the groups
of other keys. -/
theorem foldlM_append {d : OrderedDict κ (List α)} {key : κ} {value : α}
    (hcomm : ∀ key' values, (key', values) ∈ d.entries → key' ≠ key → ∀ value' ∈ values, ∀ s,
      step key' s value' >>= (step key · value) = step key s value >>= (step key' · value'))
    (s : σ) :
    (d.append key value).entries.foldlM (runGroup step) s =
      d.entries.foldlM (runGroup step) s >>= (step key · value) := by
  obtain ⟨entries, hnodup⟩ := d
  unfold append set get?
  dsimp only at hcomm ⊢
  induction entries generalizing s with
  | nil => simp [setEntry, runGroup]
  | cons entry entries ih =>
    obtain ⟨first, values⟩ := entry
    rw [List.map_cons, List.nodup_cons] at hnodup
    rw [setEntry, lookup_cons_eq_ite]
    by_cases hfirst : first = key
    · subst hfirst
      have hothers : ∀ group ∈ entries, ∀ s,
          runGroup step s group >>= (step first · value) =
            step first s value >>= (runGroup step · group) := by
        rintro ⟨key', values'⟩ hmem s
        have hne : key' ≠ first := by
          rintro rfl
          exact hnodup.1 (List.mem_map.mpr ⟨_, hmem, rfl⟩)
        exact foldlM_bind_comm (hcomm key' values' (List.mem_cons_of_mem _ hmem) hne) s
      have hvalues : ∀ s, runGroup step s (first, values ++ [value]) =
          runGroup step s (first, values) >>= (step first · value) := by
        intro s
        simp [runGroup]
      rw [if_pos rfl, if_pos rfl, Option.getD_some, List.foldlM_cons, hvalues, List.foldlM_cons,
        bind_assoc, bind_assoc]
      simp only [foldlM_bind_comm hothers]
    · rw [if_neg hfirst, if_neg fun hsame => hfirst hsame.symm, List.foldlM_cons,
        List.foldlM_cons, bind_assoc]
      have hrest := fun s => ih s hnodup.2 fun key' values hmem =>
        hcomm key' values (List.mem_cons_of_mem _ hmem)
      simp only [hrest]

/-- Going through the groups does the same as going through the entries. -/
theorem foldlM_group {entries : List (κ × α)}
    (hcomm : entries.Pairwise fun entry entry' => entry.1 ≠ entry'.1 → ∀ s,
      step entry.1 s entry.2 >>= (step entry'.1 · entry'.2) =
        step entry'.1 s entry'.2 >>= (step entry.1 · entry.2)) (s : σ) :
    (group entries).entries.foldlM (runGroup step) s =
      entries.foldlM (fun s entry => step entry.1 s entry.2) s := by
  induction entries using List.reverseRecOn with
  | nil => rfl
  | append_singleton entries entry ih =>
    rw [List.pairwise_append] at hcomm
    obtain ⟨hbefore, -, hlast⟩ := hcomm
    rw [group_append_singleton, foldlM_append, ih hbefore, List.foldlM_append]
    · simp
    · intro key' values hmem hne value' hvalue
      exact hlast _ (mem_of_mem_group hmem hvalue) entry List.mem_cons_self hne

end OrderedDict
