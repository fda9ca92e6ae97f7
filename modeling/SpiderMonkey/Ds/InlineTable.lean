import Mathlib.Data.List.AList

/-!
# Inline tables

`js::InlineMap` in `ds/InlineTable.h` keeps up to `InlineEntries` entries in an array, and moves them to a hash map when
there are more.  An `InlineSet` is a map to `Unit`.  The hash map, which may fail to allocate, is a parameter, and so is
what moving a value leaves behind.

The container is a finite map as long as no put fails after entries have been moved whose values do not survive it: then
the entries in the array are still in use.
-/

namespace SpiderMonkey.InlineTable

open List Function

variable {K V T : Type*}

/-! ## The code -/

/-- The operations of the hash map; `putNew` and `setValue` are what is done when nothing fails. -/
structure HashMap (K V T : Type*) where
  /-- What the range of all entries yields. -/
  entries : T → List (K × V)
  lookup : T → K → Option V
  count : T → ℕ
  clear : T → T
  putNew : K → V → T → T
  setValue : K → V → T → T
  remove : K → T → T

/-- The key of a tombstone is zero, which is `none`.  Keys are pointers: moving one leaves it as it is. -/
structure Table (K V T : Type*) where
  inlNext : ℕ
  inlCount : ℕ
  inl : ℕ → Option K × V
  table : T

def advancePastNulls (s : Table K V T) (newCur : ℕ) : ℕ :=
  if newCur < s.inlNext ∧ (s.inl newCur).1.isNone then advancePastNulls s (newCur + 1) else newCur
termination_by s.inlNext - newCur

lemma le_advancePastNulls (s : Table K V T) (i : ℕ) : i ≤ advancePastNulls s i := by
  fun_induction advancePastNulls s i <;> omega

/-- What a range over the array yields until it is empty. -/
def inlineRange (s : Table K V T) (cur : ℕ) : List (K × V) :=
  if cur < s.inlNext then
    match (s.inl cur).1 with
    | some k => (k, (s.inl cur).2) :: inlineRange s (advancePastNulls s (cur + 1))
    | none => []
  else []
termination_by s.inlNext - cur
decreasing_by
  have := le_advancePastNulls s (cur + 1)
  omega

def inlineLookup [DecidableEq K] (s : Table K V T) (k : K) : Option ℕ :=
  (range s.inlNext).find? fun i => (s.inl i).1 = some k

def clear (s : Table K V T) : Table K V T := { s with inlNext := 0, inlCount := 0 }

/-- The template parameters of the container. -/
structure Impl (K V T : Type*) where
  map : HashMap K V T
  /-- What is left of a value that has been moved. -/
  moved : V → V
  InlineEntries : ℕ

namespace Impl

variable [DecidableEq K] (impl : Impl K V T)

def usingTable (s : Table K V T) : Prop := s.inlNext > impl.InlineEntries

instance (s : Table K V T) : Decidable (impl.usingTable s) := inferInstanceAs (Decidable (_ > _))

/-- The loop of `switchToTable`.  The allocation for entry `i` succeeds if `ok i` holds. -/
def moveEntries (ok : ℕ → Bool) (i : ℕ) (s : Table K V T) : Bool × Table K V T :=
  if i < impl.InlineEntries then
    match (s.inl i).1 with
    | none => moveEntries ok (i + 1) s
    | some k =>
      if ok i then
        moveEntries ok (i + 1) { s with
          inl := update s.inl i (some k, impl.moved (s.inl i).2)
          table := impl.map.putNew k (s.inl i).2 s.table }
      else (false, s)
  else (true, s)
termination_by impl.InlineEntries - i

def switchToTable (ok : ℕ → Bool) (s : Table K V T) : Bool × Table K V T :=
  match impl.moveEntries ok 0 { s with table := impl.map.clear s.table } with
  | (true, s) => (true, { s with inlNext := impl.InlineEntries + 1 })
  | (false, s) => (false, s)

def count (s : Table K V T) : ℕ := if impl.usingTable s then impl.map.count s.table else s.inlCount

def empty (s : Table K V T) : Bool := if impl.usingTable s then impl.map.count s.table = 0 else s.inlCount = 0

def lookup (s : Table K V T) (k : K) : Option V :=
  if impl.usingTable s then impl.map.lookup s.table k else (inlineLookup s k).map fun i => (s.inl i).2

def has (s : Table K V T) (k : K) : Bool := (impl.lookup s k).isSome

/-- A key that has not been found is added. -/
def add (ok : ℕ → Bool) (k : K) (v : V) (s : Table K V T) : Bool × Table K V T :=
  if impl.usingTable s then
    if ok 0 then (true, { s with table := impl.map.putNew k v s.table }) else (false, s)
  else if s.inlNext = impl.InlineEntries then
    match impl.switchToTable ok s with
    | (true, s) =>
      if ok impl.InlineEntries then (true, { s with table := impl.map.putNew k v s.table }) else (false, s)
    | (false, s) => (false, s)
  else if ok 0 then
    (true, { s with
      inl := update s.inl s.inlNext (some k, v)
      inlCount := s.inlCount + 1
      inlNext := s.inlNext + 1 })
  else (false, s)

def put (ok : ℕ → Bool) (k : K) (v : V) (s : Table K V T) : Bool × Table K V T :=
  if impl.usingTable s then
    match impl.map.lookup s.table k with
    | some _ => (true, { s with table := impl.map.setValue k v s.table })
    | none => impl.add ok k v s
  else
    match inlineLookup s k with
    | some i => (true, { s with inl := update s.inl i (some k, v) })
    | none => impl.add ok k v s

def remove (k : K) (s : Table K V T) : Table K V T :=
  if impl.usingTable s then
    match impl.map.lookup s.table k with
    | some _ => { s with table := impl.map.remove k s.table }
    | none => s
  else
    match inlineLookup s k with
    | some i => { s with inl := update s.inl i (none, (s.inl i).2), inlCount := s.inlCount - 1 }
    | none => s

def all (s : Table K V T) : List (K × V) :=
  if impl.usingTable s then impl.map.entries s.table else inlineRange s (advancePastNulls s 0)

end Impl

/-! ## The abstract map -/

structure HashMap.Correct [DecidableEq K] (map : HashMap K V T) : Prop where
  nodup : ∀ t, ((map.entries t).map Prod.fst).Nodup
  entries : ∀ t k v, (k, v) ∈ map.entries t ↔ map.lookup t k = some v
  count : ∀ t, map.count t = (map.entries t).length
  clear : ∀ t k, map.lookup (map.clear t) k = none
  putNew : ∀ t k v, map.lookup t k = none → map.lookup (map.putNew k v t) = update (map.lookup t) k (some v)
  setValue : ∀ t k v, map.lookup (map.setValue k v t) = update (map.lookup t) k (some v)
  remove : ∀ t k, map.lookup (map.remove k t) = update (map.lookup t) k none

variable [DecidableEq K] {impl : Impl K V T} {s : Table K V T} {k : K} {v : V}

/-- What is observed of the container is what `m` holds. -/
structure Agrees (impl : Impl K V T) (s : Table K V T) (m : K → Option V) : Prop where
  lookup : impl.lookup s = m
  has : ∀ k, impl.has s k = (m k).isSome
  nodup : ((impl.all s).map Prod.fst).Nodup
  mem_all : ∀ k v, (k, v) ∈ impl.all s ↔ m k = some v
  count : impl.count s = (impl.all s).length
  empty : impl.empty s = true ↔ ∀ k, m k = none

/-- The array is in order as long as it is used. -/
structure Inv (s : Table K V T) : Prop where
  distinct : ∀ i < s.inlNext, ∀ j < s.inlNext, ∀ k, (s.inl i).1 = some k → (s.inl j).1 = some k → i = j
  counted : s.inlCount = (range s.inlNext).countP fun i => (s.inl i).1.isSome

lemma Inv.lookup_iff (h : Inv s) : (inlineLookup s k).map (fun i => (s.inl i).2) = some v ↔
    ∃ i < s.inlNext, s.inl i = (some k, v) := by
  constructor
  · intro hk
    obtain ⟨i, hi, rfl⟩ := Option.map_eq_some_iff.1 hk
    obtain ⟨hkey, hmem, -⟩ := find?_range_eq_some.1 hi
    exact ⟨i, mem_range.1 hmem, Prod.ext (of_decide_eq_true hkey) rfl⟩
  · rintro ⟨i, hi, heq⟩
    have hkey : (s.inl i).1 = some k := by rw [heq]
    cases hfind : inlineLookup s k with
    | none => exact absurd hkey (by simpa using find?_range_eq_none.1 hfind i hi)
    | some j =>
      obtain ⟨hkey', hmem, -⟩ := find?_range_eq_some.1 hfind
      obtain rfl := h.distinct i hi j (mem_range.1 hmem) k hkey (of_decide_eq_true hkey')
      simp [heq]

/-- The entry in a slot that is no tombstone. -/
def slotEntry (s : Table K V T) (i : ℕ) : Option (K × V) := (s.inl i).1.map fun k => (k, (s.inl i).2)

omit [DecidableEq K] in
lemma inlineRange_eq (s : Table K V T) (i : ℕ) :
    inlineRange s (advancePastNulls s i) = (range' i (s.inlNext - i)).filterMap (slotEntry s) := by
  induction hn : s.inlNext - i generalizing i with
  | zero =>
    rw [advancePastNulls, if_neg (by omega), inlineRange, if_neg (by omega)]
    rfl
  | succ n ih =>
    rw [advancePastNulls, range'_succ, filterMap_cons]
    cases hkey : (s.inl i).1 with
    | none => simp [slotEntry, hkey, show i < s.inlNext by omega, ih (i + 1) (by omega)]
    | some k =>
      rw [if_neg (by simp), inlineRange, if_pos (by omega), hkey, ih (i + 1) (by omega)]
      simp [slotEntry, hkey]

lemma Inv.agrees (hmap : impl.map.Correct) (h : ¬ impl.usingTable s → Inv s) : Agrees impl s (impl.lookup s) := by
  obtain ⟨hnodup, hmem, hcount⟩ : ((impl.all s).map Prod.fst).Nodup ∧
      (∀ k v, (k, v) ∈ impl.all s ↔ impl.lookup s k = some v) ∧ impl.count s = (impl.all s).length := by
    by_cases htable : impl.usingTable s
    · simp only [Impl.all, Impl.lookup, Impl.count, if_pos htable]
      exact ⟨hmap.nodup _, hmap.entries _, hmap.count _⟩
    · have hinv := h htable
      simp only [Impl.all, Impl.lookup, Impl.count, if_neg htable, inlineRange_eq, Nat.sub_zero, ← range_eq_range']
      refine ⟨?_, fun k v => ?_, ?_⟩
      · rw [map_filterMap, Nodup, pairwise_filterMap]
        refine pairwise_lt_range.imp_of_mem fun {i j} hi hj hlt k hk k' hk' heq => ?_
        simp only [slotEntry, Option.map_map, Option.map_eq_some_iff, comp_apply] at hk hk'
        obtain ⟨_, hk, rfl⟩ := hk
        obtain ⟨_, hk', rfl⟩ := hk'
        exact Nat.ne_of_lt hlt (hinv.distinct i (mem_range.1 hi) j (mem_range.1 hj) _ hk (heq ▸ hk'))
      · rw [hinv.lookup_iff]
        simp [slotEntry, Prod.ext_iff, and_comm]
      · rw [hinv.counted, length_filterMap_eq_countP]
        simp [slotEntry]
  refine ⟨rfl, fun _ => rfl, hnodup, hmem, hcount, ?_⟩
  have hempty : impl.empty s = true ↔ impl.count s = 0 := by
    rw [Impl.empty, Impl.count]
    split <;> exact decide_eq_true_iff
  rw [hempty, hcount, length_eq_zero_iff, eq_nil_iff_forall_not_mem]
  constructor
  · intro hnone k
    exact Option.eq_none_iff_forall_ne_some.2 fun v hv => hnone (k, v) ((hmem k v).2 hv)
  · rintro hnone ⟨k, v⟩ hkv
    exact absurd ((hmem k v).1 hkv) (by simp [hnone k])

/-! ## The switch -/

omit [DecidableEq K] in
lemma fst_update {i : ℕ} (hkey : (s.inl i).1 = some k) (v : V) (j : ℕ) :
    (update s.inl i (some k, v) j).1 = (s.inl j).1 := by
  by_cases hj : j = i <;> simp [hj, hkey]

/-- The keys of the entries from `i` on are different, and not in the hash map. -/
structure Movable (impl : Impl K V T) (i : ℕ) (s : Table K V T) : Prop where
  new : ∀ j < impl.InlineEntries, i ≤ j → ∀ k, (s.inl j).1 = some k → impl.map.lookup s.table k = none
  distinct : ∀ i < impl.InlineEntries, ∀ j < impl.InlineEntries, ∀ k,
    (s.inl i).1 = some k → (s.inl j).1 = some k → i = j

lemma moveEntries_succeeds (hmap : impl.map.Correct) {ok : ℕ → Bool} {i : ℕ} {s s' : Table K V T}
    (h : Movable impl i s) (hrun : impl.moveEntries ok i s = (true, s')) :
    impl.map.lookup s'.table k = some v ↔
      impl.map.lookup s.table k = some v ∨ ∃ j < impl.InlineEntries, i ≤ j ∧ s.inl j = (some k, v) := by
  have hnext {i : ℕ} (hi : i < impl.InlineEntries) (p : ℕ → Prop) :
      (∃ j < impl.InlineEntries, i ≤ j ∧ p j) ↔ p i ∨ ∃ j < impl.InlineEntries, i + 1 ≤ j ∧ p j := by
    constructor
    · rintro ⟨j, hj, hij, hp⟩
      obtain rfl | hlt := Nat.eq_or_lt_of_le hij
      · exact .inl hp
      · exact .inr ⟨j, hj, hlt, hp⟩
    · rintro (hp | ⟨j, hj, hij, hp⟩)
      · exact ⟨i, hi, le_rfl, hp⟩
      · exact ⟨j, hj, by omega, hp⟩
  fun_induction impl.moveEntries ok i s with
  | case1 i s hi hkey ih =>
    refine (ih ⟨fun j hj hij => h.new j hj (by omega), h.distinct⟩ hrun).trans ?_
    simp [hnext hi, Prod.ext_iff, hkey]
  | case2 i s hi k₀ hkey hok ih =>
    have hput := hmap.putNew s.table k₀ (s.inl i).2 (h.new i hi le_rfl k₀ hkey)
    refine (ih ⟨fun j hj hij k hk => ?_, by simpa only [fst_update hkey] using h.distinct⟩ hrun).trans ?_
    · have hk := (fst_update hkey _ j).symm.trans hk
      have hne : k ≠ k₀ := fun heq => absurd (h.distinct i hi j hj k₀ hkey (heq ▸ hk)) (by omega)
      simpa [hput, hne] using h.new j hj (by omega) k hk
    · have hrest :
          (∃ j < impl.InlineEntries, i + 1 ≤ j ∧ update s.inl i (some k₀, impl.moved (s.inl i).2) j = (some k, v)) ↔
            ∃ j < impl.InlineEntries, i + 1 ≤ j ∧ s.inl j = (some k, v) :=
        exists_congr fun j => and_congr_right fun _ => and_congr_right fun hij => by rw [update_of_ne (by omega)]
      simp only [hput]
      rw [hnext hi, hrest, ← or_assoc]
      by_cases hk : k = k₀
      · subst hk
        simp [Prod.ext_iff, hkey, h.new i hi le_rfl k hkey]
      · simp [Prod.ext_iff, hkey, hk, Ne.symm hk]
  | case3 => simp at hrun
  | case4 i s hi =>
    obtain rfl := (Prod.mk.inj hrun).2
    exact ⟨.inl, Or.rec id fun ⟨j, hj, hij, _⟩ => absurd hj (by omega)⟩

omit [DecidableEq K] in
lemma moveEntries_fails {ok : ℕ → Bool} {i : ℕ} {s s' : Table K V T}
    (hrun : impl.moveEntries ok i s = (false, s')) :
    s'.inlNext = s.inlNext ∧ s'.inlCount = s.inlCount ∧
      ∃ stop < impl.InlineEntries, i ≤ stop ∧ ok stop = false ∧ (s.inl stop).1.isSome ∧
        (∀ j < stop, i ≤ j → (s.inl j).1.isSome → ok j = true) ∧
        ∀ j, s'.inl j = s.inl j ∨
          i ≤ j ∧ j < stop ∧ (s.inl j).1.isSome ∧ s'.inl j = ((s.inl j).1, impl.moved (s.inl j).2) := by
  fun_induction impl.moveEntries ok i s with
  | case1 i s hi hkey ih =>
    obtain ⟨hnext, hcount, stop, hstop, hle, hno, hlive, hbefore, hinl⟩ := ih hrun
    refine ⟨hnext, hcount, stop, hstop, by omega, hno, hlive, fun j hj hij hsome => ?_, fun j => ?_⟩
    · exact hbefore j hj (Nat.lt_of_le_of_ne hij fun heq => by simp [← heq, hkey] at hsome) hsome
    · exact (hinl j).imp_right fun ⟨hij, hrest⟩ => ⟨by omega, hrest⟩
  | case2 i s hi k₀ hkey hok ih =>
    obtain ⟨hnext, hcount, stop, hstop, hle, hno, hlive, hbefore, hinl⟩ := ih hrun
    simp only [fst_update hkey] at hlive hbefore hinl
    refine ⟨hnext, hcount, stop, hstop, by omega, hno, hlive, fun j hj hij hsome => ?_, fun j => ?_⟩
    · obtain rfl | hlt := Nat.eq_or_lt_of_le hij
      · exact hok
      · exact hbefore j hj hlt hsome
    · by_cases hj : j = i
      · subst hj
        obtain heq | ⟨hlt, -⟩ := hinl j
        · exact .inr ⟨le_rfl, by omega, by simp [hkey], by simpa [hkey] using heq⟩
        · omega
      · have hinl := hinl j
        rw [update_of_ne hj] at hinl
        exact hinl.imp_right fun ⟨hij, hrest⟩ => ⟨by omega, hrest⟩
  | case3 i s hi k₀ hkey hok =>
    obtain rfl := (Prod.mk.inj hrun).2
    exact ⟨rfl, rfl, i, hi, le_rfl, by simpa using hok, by simp [hkey], fun j hj hij => by omega, fun j => .inl rfl⟩
  | case4 => simp at hrun

/-! ## What the operations do -/

lemma lookup_of_usingTable (h : impl.usingTable s) : impl.lookup s = impl.map.lookup s.table := by
  funext k
  rw [Impl.lookup, if_pos h]

/-- A state is well-formed as `Inv` says, and what it holds is `m`. -/
def Holds (impl : Impl K V T) (s : Table K V T) (m : K → Option V) : Prop :=
  (¬ impl.usingTable s → Inv s) ∧ impl.lookup s = m

lemma holds_of_usingTable {m : K → Option V} (h : impl.usingTable s) (hm : impl.map.lookup s.table = m) :
    Holds impl s m :=
  ⟨absurd h, (lookup_of_usingTable h).trans hm⟩

lemma Inv.lookup_eq_some_iff (h : Inv s) (hin : ¬ impl.usingTable s) :
    impl.lookup s k = some v ↔ ∃ i < s.inlNext, s.inl i = (some k, v) := by
  rw [Impl.lookup, if_neg hin, h.lookup_iff]

lemma Inv.set_slot {s' : Table K V T} {i : ℕ} {e : Option K × V} (h : Inv s) (hin : ¬ impl.usingTable s)
    (hin' : ¬ impl.usingTable s') (hinl : s'.inl = update s.inl i e) (hi : i < s'.inlNext)
    (hnext : ∀ j, j ≠ i → (j < s'.inlNext ↔ j < s.inlNext)) (hk : ∀ j < s.inlNext, (s.inl j).1 = some k → j = i)
    (hold : i < s.inlNext → (s.inl i).1 = some k) (hnew : ∀ k', e.1 = some k' → k' = k)
    {w : Option V} (hw : e.1.map (fun _ => e.2) = w)
    (hcount : s'.inlCount = (range s'.inlNext).countP fun i => (s'.inl i).1.isSome) :
    Holds impl s' (update (impl.lookup s) k w) := by
  have hslot (j : ℕ) (hj : j < s'.inlNext) (k' : K) (hkey : (s'.inl j).1 = some k') :
      j = i ∧ k' = k ∨ k' ≠ k ∧ j < s.inlNext ∧ s'.inl j = s.inl j := by
    rw [hinl] at hkey ⊢
    by_cases hji : j = i
    · rw [hji, update_self] at hkey
      exact .inl ⟨hji, hnew k' hkey⟩
    · rw [update_of_ne hji] at hkey ⊢
      have hj := (hnext j hji).1 hj
      exact .inr ⟨fun heq => hji (hk j hj (heq ▸ hkey)), hj, rfl⟩
  have hinv : Inv s' := by
    refine ⟨fun j hj j' hj' k' hkey hkey' => ?_, hcount⟩
    obtain ⟨rfl, hkk⟩ | ⟨hne, hj, heq⟩ := hslot j hj k' hkey
    · obtain ⟨rfl, -⟩ | ⟨hne', -⟩ := hslot j' hj' k' hkey'
      · rfl
      · exact absurd hkk hne'
    · obtain ⟨-, hkk⟩ | ⟨-, hj', heq'⟩ := hslot j' hj' k' hkey'
      · exact absurd hkk hne
      · exact h.distinct j hj j' hj' k' (heq ▸ hkey) (heq' ▸ hkey')
  refine ⟨fun _ => hinv, funext fun k' => Option.ext fun v => ?_⟩
  rw [hinv.lookup_eq_some_iff hin']
  by_cases hkk : k' = k
  · subst hkk
    rw [update_self, ← hw, Option.map_eq_some_iff]
    constructor
    · rintro ⟨j, hj, heq⟩
      obtain ⟨rfl, -⟩ | ⟨hne, -⟩ := hslot j hj k' (by rw [heq])
      · rw [hinl, update_self] at heq
        exact ⟨k', by rw [heq], by rw [heq]⟩
      · exact absurd rfl hne
    · rintro ⟨k, hkey, rfl⟩
      obtain rfl := hnew k hkey
      exact ⟨i, hi, by rw [hinl, update_self, ← hkey]⟩
  · rw [update_of_ne hkk, h.lookup_eq_some_iff hin]
    constructor
    · rintro ⟨j, hj, heq⟩
      obtain ⟨-, rfl⟩ | ⟨-, hj, hsame⟩ := hslot j hj k' (by rw [heq])
      · exact absurd rfl hkk
      · exact ⟨j, hj, hsame ▸ heq⟩
    · rintro ⟨j, hj, heq⟩
      have hji : j ≠ i := by
        rintro rfl
        have := hold hj
        rw [heq] at this
        exact hkk (Option.some.inj this)
      exact ⟨j, (hnext j hji).2 hj, by rw [hinl, update_of_ne hji, heq]⟩

/-- The slot of a key gets another entry. -/
lemma Inv.replace {i : ℕ} {e : Option K × V} (h : Inv s) (hin : ¬ impl.usingTable s)
    (hfind : inlineLookup s k = some i) (hnew : ∀ k', e.1 = some k' → k' = k) {w : Option V}
    (hw : e.1.map (fun _ => e.2) = w) {c : ℕ}
    (hcount : (s.inl i).1 = some k → i < s.inlNext →
      c = (range s.inlNext).countP fun j => (update s.inl i e j).1.isSome) :
    Holds impl { s with inl := update s.inl i e, inlCount := c } (update (impl.lookup s) k w) := by
  obtain ⟨hkey, hmem, -⟩ := find?_range_eq_some.1 hfind
  have hkey := of_decide_eq_true hkey
  have hi := mem_range.1 hmem
  refine h.set_slot hin ?_ rfl ?_ ?_ (fun j hj hsome => h.distinct j hj i hi k hsome hkey) (fun _ => hkey) hnew hw ?_
  · exact hin
  · exact hi
  · exact fun _ _ => .rfl
  · exact hcount hkey hi

lemma countP_update_none {i n : ℕ} (f : ℕ → Bool) (hi : i < n) (hf : f i = true) :
    (range n).countP (update f i false) + 1 = (range n).countP f := by
  induction n with
  | zero => omega
  | succ n ih =>
    rw [range_succ, countP_append, countP_append, countP_singleton, countP_singleton]
    obtain rfl | hlt := Nat.eq_or_lt_of_le (Nat.le_of_lt_succ hi)
    · have hsame : (range i).countP (update f i false) = (range i).countP f :=
        countP_congr fun j hj => by rw [update_of_ne (Nat.ne_of_lt (mem_range.1 hj))]
      simp [hsame, hf]
    · rw [update_of_ne (Nat.ne_of_gt hlt), ← ih hlt]
      omega

variable {ok : ℕ → Bool}

/-- What the calls of `put` need that fail: if entries have been moved by then, their values are as before. -/
def KeepsValues (impl : Impl K V T) (ok : ℕ → Bool) (k : K) (s : Table K V T) : Prop :=
  s.inlNext = impl.InlineEntries → inlineLookup s k = none →
    ∀ stop < impl.InlineEntries, ok stop = false → (s.inl stop).1.isSome →
      (∀ j < stop, (s.inl j).1.isSome → ok j = true) →
        ∀ j < stop, (s.inl j).1.isSome → impl.moved (s.inl j).2 = (s.inl j).2

/-- What is in the array is in the hash map after the switch. -/
lemma Inv.switchToTable_succeeds (hmap : impl.map.Correct) (h : Inv s) (hfull : s.inlNext = impl.InlineEntries)
    {s' : Table K V T} (hrun : impl.switchToTable ok s = (true, s')) :
    impl.usingTable s' ∧ impl.map.lookup s'.table = impl.lookup s := by
  unfold Impl.switchToTable at hrun
  split at hrun
  · rename_i s₁ hmove
    obtain rfl := (Prod.mk.inj hrun).2
    refine ⟨Nat.lt_succ_self _, funext fun k => Option.ext fun v => ?_⟩
    rw [h.lookup_eq_some_iff (by simp [Impl.usingTable, hfull]), hfull]
    simpa [hmap.clear] using moveEntries_succeeds hmap ⟨by simp [hmap.clear], hfull ▸ h.distinct⟩ hmove
  · simp at hrun

/-- If the switch fails, the entries are in the array, with their values. -/
lemma KeepsValues.switchToTable_fails (h : KeepsValues impl ok k s) (hfull : s.inlNext = impl.InlineEntries)
    (hnone : inlineLookup s k = none) {s' : Table K V T} (hrun : impl.switchToTable ok s = (false, s')) :
    s' = { s with table := s'.table } := by
  unfold Impl.switchToTable at hrun
  split at hrun
  · simp at hrun
  · rename_i s₁ hmove
    obtain rfl := (Prod.mk.inj hrun).2
    obtain ⟨hnext, hcount, stop, hstop, -, hno, hlive, hbefore, hinl⟩ := moveEntries_fails hmove
    have hsame : s₁.inl = s.inl := funext fun j => by
      obtain heq | ⟨-, hj, hsome, heq⟩ := hinl j
      · exact heq
      · rw [heq]
        exact Prod.ext rfl (h hfull hnone stop hstop hno hlive (fun j hj => hbefore j hj (Nat.zero_le _)) j hj hsome)
    cases s₁
    simp_all

lemma add_spec (hmap : impl.map.Correct) (h : ¬ impl.usingTable s → Inv s)
    (hkeeps : KeepsValues impl ok k s) (hnone : impl.lookup s k = none) :
    Holds impl (impl.add ok k v s).2
      (if (impl.add ok k v s).1 then update (impl.lookup s) k (some v) else impl.lookup s) := by
  unfold Impl.add
  by_cases htable : impl.usingTable s
  · rw [if_pos htable]
    rw [lookup_of_usingTable htable] at hnone ⊢
    split
    · exact holds_of_usingTable htable (hmap.putNew _ _ _ hnone)
    · exact holds_of_usingTable htable rfl
  · have hinv := h htable
    have hfind : inlineLookup s k = none := by simpa [Impl.lookup, if_neg htable] using hnone
    rw [if_neg htable]
    split
    · rename_i hfull
      split
      · rename_i s₁ hswitch
        obtain ⟨htable₁, hlookup⟩ := hinv.switchToTable_succeeds hmap hfull hswitch
        rw [← hlookup] at hnone ⊢
        split
        · exact holds_of_usingTable htable₁ (hmap.putNew _ _ _ hnone)
        · exact holds_of_usingTable htable₁ rfl
      · rename_i s₁ hswitch
        rw [hkeeps.switchToTable_fails hfull hfind hswitch]
        exact ⟨fun _ => ⟨hinv.distinct, hinv.counted⟩,
          funext fun k => by simp [Impl.lookup, Impl.usingTable, hfull, inlineLookup]⟩
    · rename_i hroom
      split
      · have hkey := find?_range_eq_none.1 hfind
        have hother {j : ℕ} (hj : j ≠ s.inlNext) : update s.inl s.inlNext (some k, v) j = s.inl j := update_of_ne hj _ _
        refine hinv.set_slot htable ?_ rfl (Nat.lt_succ_self _) (fun j hj => ?_) ?_ ?_ ?_ rfl ?_
        · simp only [Impl.usingTable] at htable ⊢
          omega
        · exact ⟨fun h => Nat.lt_of_le_of_ne (Nat.le_of_lt_succ h) hj, Nat.lt_succ_of_lt⟩
        · exact fun j hj hsome => absurd hsome (by simpa using hkey j hj)
        · exact fun hlt => absurd hlt (Nat.lt_irrefl _)
        · rintro k' ⟨⟩
          rfl
        · simp only [range_succ, countP_append, countP_singleton, update_self, hinv.counted]
          refine congrArg (· + 1) (countP_congr fun j hj => ?_)
          rw [hother (Nat.ne_of_lt (mem_range.1 hj))]
      · exact ⟨h, rfl⟩

lemma put_spec (hmap : impl.map.Correct) (h : ¬ impl.usingTable s → Inv s)
    (hkeeps : KeepsValues impl ok k s) :
    Holds impl (impl.put ok k v s).2
      (if (impl.put ok k v s).1 then update (impl.lookup s) k (some v) else impl.lookup s) := by
  unfold Impl.put
  split
  · rename_i htable
    split
    · rw [lookup_of_usingTable htable]
      exact holds_of_usingTable htable (hmap.setValue _ _ _)
    · rename_i hnone
      exact add_spec hmap h hkeeps (by rw [lookup_of_usingTable htable, hnone])
  · rename_i htable
    split
    · rename_i i hfind
      refine (h htable).replace (e := (some k, v)) htable hfind ?_ rfl fun hkey _ => ?_
      · rintro k' ⟨⟩
        rfl
      · simp only [fst_update hkey, (h htable).counted]
    · rename_i hnone
      exact add_spec hmap h hkeeps (by simp [Impl.lookup, htable, hnone])

lemma remove_spec (hmap : impl.map.Correct) (h : ¬ impl.usingTable s → Inv s) :
    Holds impl (impl.remove k s) (update (impl.lookup s) k none) := by
  unfold Impl.remove
  split
  · rename_i htable
    rw [lookup_of_usingTable htable]
    split
    · exact holds_of_usingTable htable (hmap.remove _ _)
    · rename_i hnone
      exact holds_of_usingTable htable (by rw [← hnone, update_eq_self])
  · rename_i htable
    split
    · rename_i i hfind
      refine (h htable).replace (e := (none, _)) htable hfind (by simp) rfl fun hkey hi => ?_
      have hlive : (fun j => (update s.inl i (none, (s.inl i).2) j).1.isSome) =
          update (fun j => (s.inl j).1.isSome) i false := by
        funext j
        by_cases hj : j = i <;> simp [hj]
      have hone := countP_update_none (fun j => (s.inl j).1.isSome) hi (by simp [hkey])
      rw [hlive, (h htable).counted, ← hone, Nat.add_sub_cancel]
    · rename_i hnone
      exact ⟨h, (update_eq_iff.2 ⟨by simp [Impl.lookup, htable, hnone], fun _ _ => rfl⟩).symm⟩

/-! ## Runs -/

/-- The calls that change the container.  The allocations of a `put` may fail. -/
inductive Event (K V : Type*) where
  | put (k : K) (v : V) (ok : ℕ → Bool)
  | remove (k : K)
  | clear

def Impl.step (impl : Impl K V T) : Event K V → Table K V T → Bool × Table K V T
  | .put k v ok, s => impl.put ok k v s
  | .remove k, s => (true, impl.remove k s)
  | .clear, s => (true, clear s)

/-- What a call that succeeds makes of the abstract map. -/
def Event.apply : Event K V → (K → Option V) → K → Option V
  | put k v _, m => update m k (some v)
  | remove k, m => update m k none
  | clear, _ => fun _ => none

def Event.KeepsValues (impl : Impl K V T) : Event K V → Table K V T → Prop
  | put k _ ok, s => InlineTable.KeepsValues impl ok k s
  | remove _, _ => True
  | clear, _ => True

/-- The states of the runs whose steps meet `P`, with the abstract map.  A call that fails does not change the map. -/
inductive Reaches (impl : Impl K V T) (P : Event K V → Table K V T → Prop) : Table K V T → (K → Option V) → Prop
  | new (inl : ℕ → Option K × V) (table : T) : Reaches impl P ⟨0, 0, inl, table⟩ fun _ => none
  | step {s m} (e : Event K V) (h : Reaches impl P s m) (hP : P e s) :
    Reaches impl P (impl.step e s).2 (if (impl.step e s).1 then e.apply m else m)

lemma holds_empty (inl : ℕ → Option K × V) (table : T) : Holds impl ⟨0, 0, inl, table⟩ fun _ => none :=
  ⟨fun _ => ⟨by simp, rfl⟩, funext fun k => by simp [Impl.lookup, Impl.usingTable, inlineLookup]⟩

lemma Holds.step {m : K → Option V} (h : Holds impl s m) (hmap : impl.map.Correct) {e : Event K V}
    (hkeeps : e.KeepsValues impl s) :
    Holds impl (impl.step e s).2 (if (impl.step e s).1 then e.apply m else m) := by
  obtain ⟨hinv, rfl⟩ := h
  cases e with
  | put k v ok => exact put_spec hmap hinv hkeeps
  | remove k => exact remove_spec hmap hinv
  | clear => exact holds_empty s.inl s.table

/-- As long as values that are moved to the hash map survive when that fails, the container is a finite map. -/
theorem inlineTable_agrees (hmap : impl.map.Correct) {m : K → Option V}
    (h : Reaches impl (Event.KeepsValues impl) s m) :
    Agrees impl s m := by
  have hholds : Holds impl s m := by
    induction h with
    | new inl table => exact holds_empty inl table
    | step e h hkeeps ih => exact ih.step hmap hkeeps
  obtain ⟨hinv, rfl⟩ := hholds
  exact Inv.agrees hmap hinv

/-- The hash map is a list of entries. -/
def listImpl (K : Type*) [DecidableEq K] (moved : V → V) (InlineEntries : ℕ) : Impl K V (AList fun _ : K => V) where
  map.entries t := t.entries.map fun e => (e.1, e.2)
  map.lookup t k := t.lookup k
  map.count t := t.entries.length
  map.clear _ := ∅
  map.putNew k v t := t.insert k v
  map.setValue k v t := t.insert k v
  map.remove k t := t.erase k
  moved := moved
  InlineEntries := InlineEntries

lemma listImpl_correct (moved : V → V) (InlineEntries : ℕ) : (listImpl K moved InlineEntries).map.Correct where
  nodup t := by simpa [listImpl, comp_def, AList.keys, List.keys] using t.keys_nodup
  entries t k v := by simp [listImpl, ← AList.mem_lookup_iff]
  count t := by simp [listImpl]
  clear t k := by simp [listImpl]
  putNew t k v _ := funext fun k' => by
    by_cases hk : k' = k <;> simp [listImpl, hk]
  setValue t k v := funext fun k' => by
    by_cases hk : k' = k <;> simp [listImpl, hk]
  remove t k := funext fun k' => by
    by_cases hk : k' = k <;> simp [listImpl, hk]

theorem inlineTable_agrees_switch :
    let impl := listImpl ℕ (id : ℕ → ℕ) 1
    let s := (impl.put (fun _ => true) 1 10 ⟨0, 0, fun _ => (none, 0), ∅⟩).2
    Agrees impl (impl.put (fun _ => true) 2 20 s).2 (update (update (fun _ => none) 1 (some 10)) 2 (some 20)) := by
  intro impl s
  have hkeeps (k : ℕ) (s : Table ℕ ℕ (AList fun _ : ℕ => ℕ)) : KeepsValues impl (fun _ => true) k s :=
    fun _ _ _ _ _ _ _ _ _ _ => rfl
  have hfirst : impl.put (fun _ => true) 1 10 ⟨0, 0, fun _ => (none, 0), ∅⟩ =
      (true, ⟨1, 1, update (fun _ => (none, 0)) 0 (some 1, 10), ∅⟩) := by
    simp [impl, listImpl, Impl.put, Impl.add, Impl.usingTable, inlineLookup]
  have hsecond : (impl.put (fun _ => true) 2 20 ⟨1, 1, update (fun _ => (none, 0)) 0 (some 1, 10), ∅⟩).1 = true := by
    simp [impl, listImpl, Impl.put, Impl.add, Impl.usingTable, inlineLookup, Impl.switchToTable, Impl.moveEntries]
  have hreaches : Reaches impl (Event.KeepsValues impl) _ _ :=
    .step (.put 2 20 fun _ => true) (.step (.put 1 10 fun _ => true) (.new (fun _ => (none, 0)) ∅) (hkeeps _ _))
      (hkeeps _ _)
  simpa [s, Impl.step, Event.apply, hfirst, hsecond] using inlineTable_agrees (listImpl_correct id 1) hreaches

/-- The switch fails at the second of two entries, and the first one has lost its value. -/
theorem not_inlineTable_agrees :
    let impl := listImpl ℕ (fun _ : List ℕ => []) 2
    impl.map.Correct ∧ ¬ ∀ s m, Reaches impl (fun _ _ => True) s m → Agrees impl s m := by
  refine ⟨listImpl_correct _ _, fun h => ?_⟩
  have hagrees := h _ _ (.step (.put 3 [3] (· = 0)) (.step (.put 2 [2] fun _ => true) (.step (.put 1 [1] fun _ => true)
    (.new (fun _ => (none, [])) ∅) trivial) trivial) trivial)
  have hone := congrFun hagrees.lookup 1
  simp [listImpl, Impl.step, Impl.put, Impl.add, Impl.usingTable, inlineLookup, Impl.switchToTable, Impl.moveEntries,
    Impl.lookup, Event.apply, range_succ] at hone

end SpiderMonkey.InlineTable
