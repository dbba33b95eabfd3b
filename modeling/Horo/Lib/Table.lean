/-
# Tables with an automatic primary key

A table is a list of rows with distinct ids, none above the sequence number
that the next insert exceeds. `put` writes a row under a key that is computed
from its values: it selects the first row with the key and updates the row
with that id, or inserts a row.

* `valuesOf_put`: if no two rows have one key, `put` replaces what is stored
  under its key and nothing else; and no two rows have one key afterwards.
* `valuesOf_puts`, `length_rows_puts`: after a sequence of writes there is one
  row for each key, with what was written last under it.
* `first_putNews`: a sequence of writes that keep a row that is there stores
  what was written first under a key.
-/
import Mathlib.Data.List.Dedup
import Mathlib.Data.List.Induction
import Mathlib.Data.List.Nodup

namespace Horo
namespace Lib

structure Row (α : Type*) where
  id : ℕ
  values : α
  deriving DecidableEq, Repr

structure Table (α : Type*) where
  rows : List (Row α)
  sequence : ℕ
  nodup : (rows.map Row.id).Nodup
  bounded : ∀ r ∈ rows, 0 < r.id ∧ r.id ≤ sequence

namespace Table

variable {α κ : Type*}

def empty : Table α := ⟨[], 0, List.nodup_nil, fun _ h => absurd h List.not_mem_nil⟩

def insert (t : Table α) (a : α) : Table α where
  rows := t.rows ++ [⟨t.sequence + 1, a⟩]
  sequence := t.sequence + 1
  nodup := by
    have hfresh : t.sequence + 1 ∉ t.rows.map Row.id := by
      intro h
      obtain ⟨r, hr, hid⟩ := List.mem_map.mp h
      have hle := (t.bounded r hr).2
      omega
    rw [List.map_append, List.nodup_append]
    refine ⟨t.nodup, List.nodup_singleton _, fun x hx y hy he => ?_⟩
    rw [he, List.mem_singleton.mp hy] at hx
    exact hfresh hx
  bounded := by
    intro r hr
    rcases List.mem_append.mp hr with hr | hr
    · have h := t.bounded r hr
      omega
    · rw [List.mem_singleton.mp hr]
      exact ⟨Nat.succ_pos _, Nat.le_refl _⟩

/-- The row with the id `id` gets new values. -/
def setRow (id : ℕ) (a : α) (r : Row α) : Row α := if r.id = id then ⟨r.id, a⟩ else r

@[simp] theorem setRow_id (id : ℕ) (a : α) (r : Row α) : (setRow id a r).id = r.id := by
  unfold setRow; split <;> rfl

def update (t : Table α) (id : ℕ) (a : α) : Table α where
  rows := t.rows.map (setRow id a)
  sequence := t.sequence
  nodup := by
    have hids : (t.rows.map (setRow id a)).map Row.id = t.rows.map Row.id := by simp
    rw [hids]; exact t.nodup
  bounded := by
    intro r hr
    obtain ⟨r', hr', rfl⟩ := List.mem_map.mp hr
    rw [setRow_id]; exact t.bounded r' hr'

/-- The row with the id `id` is changed. -/
def modify (t : Table α) (id : ℕ) (f : α → α) : Table α where
  rows := t.rows.map fun r => if r.id = id then ⟨r.id, f r.values⟩ else r
  sequence := t.sequence
  nodup := by
    have hids : (t.rows.map fun r => if r.id = id then ⟨r.id, f r.values⟩ else r).map Row.id =
        t.rows.map Row.id := by
      rw [List.map_map]
      refine List.map_congr_left fun r _ => ?_
      simp only [Function.comp_apply]
      split <;> rfl
    rw [hids]; exact t.nodup
  bounded := by
    intro r hr
    obtain ⟨r', hr', rfl⟩ := List.mem_map.mp hr
    split <;> exact t.bounded r' hr'

/-- A change that changes nothing. -/
theorem modify_eq_self {t : Table α} {id : ℕ} {f : α → α}
    (h : ∀ r ∈ t.rows, r.id = id → f r.values = r.values) : t.modify id f = t := by
  have hrows : (t.modify id f).rows = t.rows := by
    refine (List.map_congr_left fun r hr => ?_).trans (List.map_id t.rows)
    split
    · rename_i hid
      rw [h r hr hid]
      rfl
    · rfl
  obtain ⟨rows, sequence, _, _⟩ := t
  simp only [modify, mk.injEq, and_true] at hrows ⊢
  exact hrows

variable [DecidableEq κ] (key : α → κ)

/-- The id of the first row with a key. -/
def select (t : Table α) (k : κ) : Option ℕ :=
  (t.rows.find? fun r => key r.values = k).map Row.id

def put (t : Table α) (a : α) : Table α :=
  match t.select key (key a) with
  | some id => t.update id a
  | none => t.insert a

/-- A row is kept if it is there. -/
def putNew (t : Table α) (a : α) : Table α :=
  match t.select key (key a) with
  | some _ => t
  | none => t.insert a

/-- What the first row with a key stores. -/
def first (t : Table α) (k : κ) : Option α :=
  (t.rows.find? fun r => key r.values = k).map Row.values

/-- What is stored under a key. -/
def valuesOf (t : Table α) (k : κ) : List α :=
  (t.rows.filter fun r => key r.values = k).map Row.values

/-- No two rows have one key. -/
def Unique (t : Table α) : Prop := ∀ k, (t.valuesOf key k).length ≤ 1

theorem unique_empty : Unique key (empty : Table α) := fun _ => Nat.zero_le _

variable {key}

theorem id_injective (t : Table α) {r r' : Row α} (hr : r ∈ t.rows) (hr' : r' ∈ t.rows)
    (h : r.id = r'.id) : r = r' :=
  List.inj_on_of_nodup_map t.nodup hr hr' h

theorem eq_of_key_eq {t : Table α} (hu : Unique key t) {r r' : Row α} (hr : r ∈ t.rows)
    (hr' : r' ∈ t.rows) (h : key r.values = key r'.values) : r = r' := by
  have hlen := hu (key r'.values)
  unfold valuesOf at hlen
  rw [List.length_map] at hlen
  have hmem : r ∈ t.rows.filter fun x => key x.values = key r'.values :=
    List.mem_filter.mpr ⟨hr, decide_eq_true h⟩
  have hmem' : r' ∈ t.rows.filter fun x => key x.values = key r'.values :=
    List.mem_filter.mpr ⟨hr', decide_eq_true rfl⟩
  rcases hf : t.rows.filter fun x => key x.values = key r'.values with _ | ⟨x, _ | ⟨y, ys⟩⟩
  · rw [hf] at hmem; cases hmem
  · rw [hf, List.mem_singleton] at hmem hmem'
    rw [hmem, hmem']
  · rw [hf] at hlen
    simp at hlen

/-- Updating the row that has a key is updating all rows that have it. -/
theorem update_rows {t : Table α} (hu : Unique key t) {r : Row α} (hr : r ∈ t.rows) (a : α) :
    (t.update r.id a).rows =
      t.rows.map fun x => if key x.values = key r.values then ⟨x.id, a⟩ else x := by
  refine List.map_congr_left fun x hx => ?_
  unfold setRow
  by_cases h : x = r
  · subst h; simp
  · rw [if_neg fun he => h (t.id_injective hx hr he), if_neg fun he => h (eq_of_key_eq hu hx hr he)]

theorem filter_setKey (k k' : κ) (a : α) (ha : key a = k') : ∀ rows : List (Row α),
    (((rows.map fun x => if key x.values = k' then ⟨x.id, a⟩ else x).filter
        fun x => key x.values = k).map Row.values) =
      if k' = k then (rows.filter fun x => key x.values = k).map (fun _ => a)
      else (rows.filter fun x => key x.values = k).map Row.values
  | [] => by simp
  | x :: xs => by
    have ih := filter_setKey k k' a ha xs
    rw [List.map_cons, List.filter_cons, List.filter_cons]
    by_cases hk : k' = k <;> by_cases hx : key x.values = k'
    · subst hk; simp_all
    · subst hk; simp_all
    · have hxk : key x.values ≠ k := fun he => hk (hx ▸ he)
      simp_all
    · by_cases hxk : key x.values = k <;> simp_all

/-- **What `put` stores.** -/
theorem valuesOf_put {t : Table α} (hu : Unique key t) (a : α) (k : κ) :
    (t.put key a).valuesOf key k = if key a = k then [a] else t.valuesOf key k := by
  rcases hf : t.rows.find? (fun r => key r.values = key a) with _ | r
  · have hput : t.put key a = t.insert a := by rw [put, select, hf]; rfl
    have hnone : ∀ x ∈ t.rows, key x.values ≠ key a := by simpa using hf
    rw [hput]
    simp only [insert, valuesOf, List.filter_append, List.map_append]
    by_cases hk : key a = k
    · have hempty : (t.rows.filter fun r => key r.values = k) = [] :=
        List.filter_eq_nil_iff.mpr fun x hx => by simpa [← hk] using hnone x hx
      simp [hk, hempty]
    · simp [hk]
  · have hr : r ∈ t.rows := List.mem_of_find?_eq_some hf
    have hkey : key r.values = key a := by simpa using List.find?_some hf
    have hput : t.put key a = t.update r.id a := by rw [put, select, hf]; rfl
    rw [hput]
    unfold valuesOf
    rw [update_rows hu hr, hkey, filter_setKey k (key a) a rfl]
    by_cases hk : key a = k
    · rw [if_pos hk, if_pos hk]
      have hlen := hu k
      have hmem : r ∈ t.rows.filter fun x => key x.values = k :=
        List.mem_filter.mpr ⟨hr, decide_eq_true (hkey.trans hk)⟩
      unfold valuesOf at hlen
      rw [List.length_map] at hlen
      rcases hl : t.rows.filter fun x => key x.values = k with _ | ⟨x, _ | ⟨y, ys⟩⟩
      · rw [hl] at hmem; cases hmem
      · rw [hl]; rfl
      · rw [hl] at hlen; simp at hlen
    · rw [if_neg hk, if_neg hk]

theorem unique_put {t : Table α} (hu : Unique key t) (a : α) : Unique key (t.put key a) := by
  intro k
  rw [valuesOf_put hu]
  split
  · simp
  · exact hu k

/-- A row with another key stays as it is. -/
theorem mem_rows_put_of_ne {t : Table α} (hu : Unique key t) {a : α} {r : Row α} (hr : r ∈ t.rows)
    (h : key a ≠ key r.values) : r ∈ (t.put key a).rows := by
  rcases hf : t.rows.find? (fun x => key x.values = key a) with _ | x
  · have hput : t.put key a = t.insert a := by rw [put, select, hf]; rfl
    rw [hput]
    exact List.mem_append_left _ hr
  · have hx : x ∈ t.rows := List.mem_of_find?_eq_some hf
    have hkey : key x.values = key a := by simpa using List.find?_some hf
    have hput : t.put key a = t.update x.id a := by rw [put, select, hf]; rfl
    rw [hput, update_rows hu hx, hkey]
    exact List.mem_map.mpr ⟨r, hr, if_neg fun he => h he.symm⟩

/-- The row with the key gets the new values. -/
theorem mem_rows_put_of_eq {t : Table α} (hu : Unique key t) {a : α} {r : Row α} (hr : r ∈ t.rows)
    (h : key a = key r.values) : ⟨r.id, a⟩ ∈ (t.put key a).rows := by
  rcases hf : t.rows.find? (fun x => key x.values = key a) with _ | x
  · have hnone : ∀ x ∈ t.rows, key x.values ≠ key a := by simpa using hf
    exact absurd h.symm (hnone r hr)
  · have hx : x ∈ t.rows := List.mem_of_find?_eq_some hf
    have hkey : key x.values = key a := by simpa using List.find?_some hf
    have hput : t.put key a = t.update x.id a := by rw [put, select, hf]; rfl
    rw [hput, update_rows hu hx, hkey]
    exact List.mem_map.mpr ⟨r, hr, if_pos h.symm⟩

/-! ### Rows that are kept -/

theorem first_empty (k : κ) : (empty : Table α).first key k = none := rfl

/-- **What `putNew` stores.** -/
theorem first_putNew (t : Table α) (a : α) (k : κ) :
    (t.putNew key a).first key k = (t.first key k).or (if key a = k then some a else none) := by
  unfold putNew
  rcases hselect : t.select key (key a) with _ | id
  · have hrows : (t.insert a).rows = t.rows ++ [⟨t.sequence + 1, a⟩] := rfl
    simp only [first, hrows, List.find?_append, List.find?_singleton, decide_eq_true_eq, Option.map_or]
    by_cases hk : key a = k
    · rw [if_pos hk, if_pos hk]
      rfl
    · rw [if_neg hk, if_neg hk]
      rfl
  · by_cases hk : key a = k
    · subst hk
      obtain ⟨r, hr, _⟩ := Option.map_eq_some_iff.mp hselect
      simp only [first, hr, Option.map_some, Option.some_or]
    · simp only [if_neg hk, Option.or_none]

/-- **What is written first under a key is kept.** -/
theorem first_putNews (k : κ) : ∀ (as : List α) (t : Table α),
    (as.foldl (fun t a => t.putNew key a) t).first key k =
      (t.first key k).or (as.find? fun a => key a = k)
  | [], t => by simp
  | a :: as, t => by
    rw [List.foldl_cons, first_putNews k as, first_putNew, Option.or_assoc, List.find?_cons]
    by_cases h : key a = k <;> simp [h]

/-! ### Sequences of writes -/

variable (key)

def putAll (t : Table α) (as : List α) : Table α := as.foldl (fun t a => t.put key a) t

/-- A table that is filled from the start. -/
def puts (as : List α) : Table α := empty.putAll key as

/-- The last values with a key. -/
def lastOf (as : List α) (k : κ) : Option α := (as.filter fun a => key a = k).getLast?

variable {key}

theorem puts_concat (as : List α) (a : α) : puts key (as ++ [a]) = (puts key as).put key a := by
  simp [puts, putAll, List.foldl_append]

theorem unique_putAll {as : List α} : ∀ {t : Table α}, Unique key t → Unique key (t.putAll key as) := by
  induction as with
  | nil => exact id
  | cons a as ih => exact fun hu => ih (unique_put hu a)

theorem unique_puts (as : List α) : Unique key (puts key as) := unique_putAll (unique_empty key)

/-- Writing under other keys leaves a row as it is. -/
theorem mem_rows_putAll {r : Row α} {as : List α} : ∀ {t : Table α}, Unique key t → r ∈ t.rows →
    (∀ a ∈ as, key a ≠ key r.values) → r ∈ (t.putAll key as).rows := by
  induction as with
  | nil => exact fun _ hr _ => hr
  | cons a as ih =>
    intro t hu hr has
    exact ih (unique_put hu a) (mem_rows_put_of_ne hu hr (has a List.mem_cons_self))
      fun b hb => has b (List.mem_cons_of_mem a hb)

/-- A row whose key is written under holds what was written. -/
theorem exists_row_putAll {as : List α} : ∀ {t : Table α} {r : Row α}, Unique key t → r ∈ t.rows →
    (∃ a ∈ as, key a = key r.values) → ∃ a ∈ as, ⟨r.id, a⟩ ∈ (t.putAll key as).rows := by
  induction as with
  | nil => rintro t r - - ⟨a, ha, -⟩; cases ha
  | cons a as ih =>
    intro t r hu hr h
    -- the row after the first write
    have hrow : ∃ r' ∈ (t.put key a).rows, r'.id = r.id ∧ key r'.values = key r.values ∧
        (key a = key r.values → r' = ⟨r.id, a⟩) := by
      by_cases ha : key a = key r.values
      · exact ⟨_, mem_rows_put_of_eq hu hr ha, rfl, ha, fun _ => rfl⟩
      · exact ⟨r, mem_rows_put_of_ne hu hr ha, rfl, rfl, fun he => absurd he ha⟩
    obtain ⟨r', hr', hid, hkey, hvalues⟩ := hrow
    by_cases has : ∃ b ∈ as, key b = key r.values
    · rw [← hkey] at has
      obtain ⟨b, hb, hmem⟩ := ih (unique_put hu a) hr' has
      exact ⟨b, List.mem_cons_of_mem a hb, hid ▸ hmem⟩
    · obtain ⟨b, hb, hbkey⟩ := h
      rcases List.mem_cons.mp hb with rfl | hb
      · refine ⟨b, List.mem_cons_self, ?_⟩
        rw [hvalues hbkey] at hr' hkey
        show ⟨r.id, b⟩ ∈ ((t.put key b).putAll key as).rows
        exact mem_rows_putAll (unique_put hu b) hr' fun c hc hckey => has ⟨c, hc, hckey.trans hkey⟩
      · exact absurd ⟨b, hb, hbkey⟩ has

/-- **What is stored under a key is what was put last under it.** -/
theorem valuesOf_puts (as : List α) (k : κ) :
    (puts key as).valuesOf key k = (lastOf key as k).toList := by
  induction as using List.reverseRecOn with
  | nil => rfl
  | append_singleton as a ih =>
    rw [puts_concat, valuesOf_put (unique_puts as), ih]
    unfold lastOf
    rw [List.filter_append]
    by_cases h : key a = k
    · simp [h]
    · simp [h]

theorem mem_valuesOf {t : Table α} {k : κ} {a : α} :
    a ∈ t.valuesOf key k ↔ (∃ r ∈ t.rows, r.values = a) ∧ key a = k := by
  unfold valuesOf
  rw [List.mem_map]
  refine ⟨fun ⟨r, hr, hra⟩ => ?_, fun ⟨⟨r, hr, hra⟩, hk⟩ => ⟨r, ?_, hra⟩⟩
  · obtain ⟨hr, hk⟩ := List.mem_filter.mp hr
    exact ⟨⟨r, hr, hra⟩, hra ▸ of_decide_eq_true hk⟩
  · exact List.mem_filter.mpr ⟨hr, decide_eq_true (hra ▸ hk)⟩

/-- A row holds what was put last under its key. -/
theorem lastOf_of_mem_rows {as : List α} {r : Row α} (hr : r ∈ (puts key as).rows) :
    lastOf key as (key r.values) = some r.values := by
  have hmem : r.values ∈ (puts key as).valuesOf key (key r.values) :=
    mem_valuesOf.mpr ⟨⟨r, hr, rfl⟩, rfl⟩
  rw [valuesOf_puts] at hmem
  exact Option.mem_toList.mp hmem

theorem mem_of_lastOf {as : List α} {k : κ} {a : α} (h : lastOf key as k = some a) :
    a ∈ as ∧ key a = k := by
  have hmem := List.mem_filter.mp (List.mem_of_getLast? h)
  exact ⟨hmem.1, of_decide_eq_true hmem.2⟩

theorem exists_lastOf {as : List α} {a : α} (ha : a ∈ as) : ∃ b, lastOf key as (key a) = some b := by
  have hmem : a ∈ as.filter fun x => key x = key a := List.mem_filter.mpr ⟨ha, decide_eq_true rfl⟩
  exact ⟨_, List.getLast?_eq_some_getLast (List.ne_nil_of_mem hmem)⟩

theorem Unique.nodup_keys {t : Table α} (hu : Unique key t) :
    (t.rows.map fun r => key r.values).Nodup :=
  List.Nodup.map_on (fun _ hr _ hr' h => eq_of_key_eq hu hr hr' h) (List.Nodup.of_map _ t.nodup)

/-! ### What a write finds, and what it leaves alone -/

variable (key) in
/-- A write replaces the first row with its key, or appends one. -/
theorem rows_put_cases (t : Table α) (a : α) :
    ((∀ r ∈ t.rows, key r.values ≠ key a) ∧
      (t.put key a).rows = t.rows ++ [⟨t.sequence + 1, a⟩]) ∨
    ∃ before r after, t.rows = before ++ r :: after ∧ (∀ x ∈ before, key x.values ≠ key a) ∧
      key r.values = key a ∧ (t.put key a).rows = before ++ ⟨r.id, a⟩ :: after := by
  rcases hf : t.rows.find? (fun r => key r.values = key a) with _ | r
  · have hput : t.put key a = t.insert a := by rw [put, select, hf]; rfl
    refine Or.inl ⟨by simpa using hf, ?_⟩
    rw [hput]
    rfl
  · have hput : t.put key a = t.update r.id a := by rw [put, select, hf]; rfl
    obtain ⟨hkey, before, after, hrows, hbefore⟩ := List.find?_eq_some_iff_append.mp hf
    have hids := t.nodup
    rw [hrows, List.map_append, List.map_cons, List.nodup_append, List.nodup_cons] at hids
    obtain ⟨-, ⟨hafter, -⟩, hapart⟩ := hids
    -- no other row has the id of the row that is found
    have hkeep : ∀ xs : List (Row α), r.id ∉ xs.map Row.id → xs.map (setRow r.id a) = xs := by
      intro xs hxs
      refine (List.map_congr_left fun x hx => if_neg fun he => hxs ?_).trans (List.map_id xs)
      exact he ▸ List.mem_map_of_mem hx
    refine Or.inr ⟨before, r, after, hrows, fun x hx => by simpa using hbefore x hx,
      by simpa using hkey, ?_⟩
    have hsplit : t.rows.map (setRow r.id a) = before ++ ⟨r.id, a⟩ :: after := by
      rw [hrows, List.map_append, List.map_cons, hkeep after hafter, hkeep before, setRow, if_pos rfl]
      exact fun hmem => hapart _ hmem _ List.mem_cons_self rfl
    rw [hput]
    exact hsplit

/-- The first row with a key keeps its id. -/
theorem find?_put {t : Table α} {k : κ} {r : Row α} (a : α)
    (hr : (t.rows.find? fun x => key x.values = k) = some r) :
    ((t.put key a).rows.find? fun x => key x.values = k) =
      some (if key a = k then ⟨r.id, a⟩ else r) := by
  have hkey : key r.values = k := by simpa using List.find?_some hr
  rcases rows_put_cases key t a with ⟨hnone, hrows⟩ | ⟨before, x, after, hrows, hbefore, hx, hput⟩
  · have hne : key a ≠ k := fun he => hnone r (List.mem_of_find?_eq_some hr) (hkey.trans he.symm)
    rw [hrows, List.find?_append, hr, if_neg hne, Option.some_or]
  · rw [hrows] at hr
    rw [hput]
    by_cases he : key a = k
    · have hskip : (before.find? fun y => key y.values = k) = none := by
        rw [List.find?_eq_none]
        intro y hy
        simpa [← he] using hbefore y hy
      have hx' : key x.values = k := hx.trans he
      rw [List.find?_append, hskip, Option.none_or, List.find?_cons_of_pos (by simpa using hx')] at hr
      rw [List.find?_append, hskip, Option.none_or, List.find?_cons_of_pos (by simpa using he), if_pos he,
        Option.some.inj hr]
    · have hxk : key x.values ≠ k := fun h => he (hx.symm.trans h)
      rw [List.find?_append, List.find?_cons_of_neg (by simpa using hxk)] at hr
      rw [List.find?_append, List.find?_cons_of_neg (by simpa using he), if_neg he, hr]

/-- What the first row with a key stores after a write. -/
theorem first_put (t : Table α) (a : α) (k : κ) :
    (t.put key a).first key k = if key a = k then some a else t.first key k := by
  rcases hf : t.rows.find? (fun x => key x.values = k) with _ | r
  · have hnone : ∀ x ∈ t.rows, key x.values ≠ k := by simpa using hf
    rcases rows_put_cases key t a with ⟨-, hrows⟩ | ⟨before, x, after, hrows, -, hx, hput⟩
    · unfold first
      rw [hrows, List.find?_append, hf, Option.none_or, List.find?_singleton]
      by_cases he : key a = k
      · simp [he]
      · simp [he]
    · have hmem : ∀ y ∈ before ++ x :: after, key y.values ≠ k := hrows ▸ hnone
      have hne : key a ≠ k := hx ▸ hmem x (by simp)
      have hnone' : ((t.put key a).rows.find? fun y => key y.values = k) = none := by
        rw [hput, List.find?_eq_none]
        intro y hy
        rcases List.mem_append.mp hy with hy | hy
        · simpa using hmem y (List.mem_append_left _ hy)
        · rcases List.mem_cons.mp hy with rfl | hy
          · simpa using hne
          · simpa using hmem y (List.mem_append_right _ (List.mem_cons_of_mem _ hy))
      rw [first, hnone', if_neg hne, first, hf]
  · rw [first, find?_put a hf, first, hf]
    by_cases he : key a = k
    · rw [if_pos he, if_pos he]
      rfl
    · rw [if_neg he, if_neg he]

theorem lastOf_cons (a : α) (as : List α) (k : κ) :
    lastOf key (a :: as) k = (lastOf key as k).or (if key a = k then some a else none) := by
  unfold lastOf
  by_cases he : key a = k
  · rw [List.filter_cons_of_pos (by simpa using he), List.getLast?_cons, if_pos he]
    cases (as.filter fun a => key a = k).getLast? <;> rfl
  · rw [List.filter_cons_of_neg (by simpa using he), if_neg he, Option.or_none]

/-- **What the first row with a key stores after a sequence of writes**: what
was written last under it. -/
theorem first_putAll (k : κ) : ∀ (as : List α) (t : Table α),
    (t.putAll key as).first key k = (lastOf key as k).or (t.first key k)
  | [], _ => rfl
  | a :: as, t => by
    show ((t.put key a).putAll key as).first key k = _
    rw [first_putAll k as, first_put, lastOf_cons, Option.or_assoc]
    by_cases he : key a = k
    · rw [if_pos he, if_pos he, Option.some_or]
    · rw [if_neg he, if_neg he, Option.none_or]

theorem find?_putAll {k : κ} : ∀ {as : List α} {t : Table α} {r : Row α},
    (t.rows.find? fun x => key x.values = k) = some r →
    ((t.putAll key as).rows.find? fun x => key x.values = k) =
      some ⟨r.id, (lastOf key as k).getD r.values⟩
  | [], _, _, hr => hr
  | a :: as, t, r, hr => by
    show (((t.put key a).putAll key as).rows.find? _) = _
    rw [find?_putAll (find?_put a hr), lastOf_cons]
    by_cases he : key a = k
    · rw [if_pos he, if_pos he]
      cases lastOf key as k <;> rfl
    · rw [if_neg he, if_neg he, Option.or_none]

section View

variable {β : Type*} (view : α → β)

/-- Every row is still there, and says what it said. -/
def KeepsRows (t t' : Table α) : Prop :=
  ∀ r ∈ t.rows, ∃ r' ∈ t'.rows, r'.id = r.id ∧ view r'.values = view r.values

variable {view}

theorem KeepsRows.refl (t : Table α) : KeepsRows view t t := fun r hr => ⟨r, hr, rfl, rfl⟩

theorem KeepsRows.trans {t t' t'' : Table α} (h : KeepsRows view t t') (h' : KeepsRows view t' t'') :
    KeepsRows view t t'' := by
  intro r hr
  obtain ⟨r', hr', hid, hview⟩ := h r hr
  obtain ⟨r'', hr'', hid', hview'⟩ := h' r' hr'
  exact ⟨r'', hr'', hid'.trans hid, hview'.trans hview⟩

theorem keepsRows_put {t : Table α} {a : α}
    (h : ∀ v, t.first key (key a) = some v → view v = view a) : KeepsRows view t (t.put key a) := by
  intro r hr
  rcases rows_put_cases key t a with ⟨-, hrows⟩ | ⟨before, x, after, hrows, hbefore, hx, hput⟩
  · exact ⟨r, hrows ▸ List.mem_append_left _ hr, rfl, rfl⟩
  · rw [hrows] at hr
    rw [hput]
    rcases List.mem_append.mp hr with hr | hr
    · exact ⟨r, List.mem_append_left _ hr, rfl, rfl⟩
    · rcases List.mem_cons.mp hr with rfl | hr
      · have hskip : (before.find? fun y => key y.values = key a) = none := by
          rw [List.find?_eq_none]
          intro y hy
          simpa using hbefore y hy
        have hfirst : t.first key (key a) = some r.values := by
          unfold first
          rw [hrows, List.find?_append, hskip, Option.none_or, List.find?_cons_of_pos (by simpa using hx)]
          rfl
        exact ⟨⟨r.id, a⟩, by simp, rfl, (h _ hfirst).symm⟩
      · exact ⟨r, List.mem_append_right _ (List.mem_cons_of_mem _ hr), rfl, rfl⟩

/-- **Writes that all say the same keep what the rows say exactly if the rows
they find say it already.** -/
theorem keepsRows_putAll_iff {b : β} : ∀ {as : List α} {t : Table α}, (∀ a ∈ as, view a = b) →
    (KeepsRows view t (t.putAll key as) ↔
      ∀ a ∈ as, ∀ v, t.first key (key a) = some v → view v = b) := by
  intro as t has
  constructor
  · intro h a ha v hv
    obtain ⟨r, hr, rfl⟩ := Option.map_eq_some_iff.mp hv
    obtain ⟨r', hr', hid, hview⟩ := h r (List.mem_of_find?_eq_some hr)
    -- the row holds what was written last under its key
    obtain ⟨c, hc⟩ : ∃ c, lastOf key as (key a) = some c := exists_lastOf ha
    have hfound : ((t.putAll key as).rows.find? fun x => key x.values = key a) =
        some ⟨r.id, (lastOf key as (key a)).getD r.values⟩ := find?_putAll hr
    rw [hc, Option.getD_some] at hfound
    have hsame : r' = ⟨r.id, c⟩ := Table.id_injective _ hr' (List.mem_of_find?_eq_some hfound) hid
    rw [← hview, hsame]
    exact has c (mem_of_lastOf hc).1
  · induction as generalizing t with
    | nil => exact fun _ => KeepsRows.refl t
    | cons a as ih =>
      intro h
      have ha : view a = b := has a List.mem_cons_self
      have hput : KeepsRows view t (t.put key a) := keepsRows_put fun v hv =>
        (h a List.mem_cons_self v hv).trans ha.symm
      refine hput.trans (ih (fun c hc => has c (List.mem_cons_of_mem a hc)) fun c hc v hv => ?_)
      rw [first_put] at hv
      split at hv
      · rw [← Option.some.inj hv]
        exact ha
      · exact h c (List.mem_cons_of_mem a hc) v hv

end View

/-- There is one row for each key that was put. -/
theorem length_rows_puts (as : List α) : (puts key as).rows.length = (as.map key).dedup.length := by
  have hperm : ((puts key as).rows.map fun r => key r.values).Perm (as.map key).dedup := by
    refine (List.perm_ext_iff_of_nodup (unique_puts as).nodup_keys (List.nodup_dedup _)).mpr ?_
    intro k
    rw [List.mem_dedup, List.mem_map, List.mem_map]
    refine ⟨?_, ?_⟩
    · rintro ⟨r, hr, rfl⟩
      obtain ⟨hmem, hk⟩ := mem_of_lastOf (lastOf_of_mem_rows hr)
      exact ⟨_, hmem, hk⟩
    · rintro ⟨a, ha, rfl⟩
      obtain ⟨b, hb⟩ := @exists_lastOf _ _ _ key _ _ ha
      have hmem : b ∈ (puts key as).valuesOf key (key a) := by
        rw [valuesOf_puts, hb]; exact List.mem_singleton_self b
      obtain ⟨⟨r, hr, hrb⟩, hk⟩ := mem_valuesOf.mp hmem
      exact ⟨r, hr, hrb ▸ hk⟩
  rw [← hperm.length_eq, List.length_map]

end Table

end Lib
end Horo
