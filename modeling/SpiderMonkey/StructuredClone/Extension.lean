import SpiderMonkey.StructuredClone.Traversal

/-!
# What writing a value adds

However a value is written, the writer remembers new objects and pushes those of them that have entries,
with all their entries; and whether it holds shared memory, and which scope it has, depends on the new
objects only.
-/

namespace SpiderMonkey.StructuredClone

open LittleEndian Relation List CloneValue Writer

variable {O : Type} (cx : WriteContext O)

/-! ## Kinds of objects -/

/-- The objects that are pushed with their entries. -/
def CloneObject.hasEntries : CloneObject O → Bool
  | .plain _ | .array _ _ | .map _ | .set _ | .savedFrame _ _ => true
  | _ => false

/-- The objects that are left to callbacks. -/
def CloneObject.IsOther (c : CloneObject O) : Prop :=
  c = .detachedArrayBuffer ∨ c = .unsharedWasmMemory ∨ c = .other

/-- The typed arrays that a callback writes. -/
def callbackValues : List (CallbackWrite O) → List (CloneValue O)
  | [] => []
  | .words _ :: rest => callbackValues rest
  | .typedArray v :: rest => v :: callbackValues rest

/-- The values that are written in the course of writing an object. -/
def innerValues (obj : O) : List (CloneValue O) :=
  match cx.object obj with
  | .typedArray _ _ _ buffer => [.object buffer]
  | .dataView _ _ buffer => [.object buffer]
  | .detachedArrayBuffer | .unsharedWasmMemory | .other =>
    match cx.callbacks.write.bind fun write => write obj with
    | some (writes, _) => callbackValues writes
    | none => []
  | _ => []

def children (obj : O) : List (CloneValue O) :=
  (cx.object obj).properties.map Prod.snd ++ entryValues (cx.object obj) ++ innerValues cx obj

/-- The object is shared memory. -/
def Shares (obj : O) : Prop :=
  (∃ rawbuf byteLength, cx.object obj = .sharedArrayBuffer rawbuf byteLength) ∨
    ∃ buffer, cx.object obj = .sharedWasmMemory buffer

/-- The callback for the object requires the scope `SameProcess`. -/
def RequiresSameProcess (obj : O) : Prop :=
  (cx.object obj).IsOther ∧ ∃ write writes, cx.callbacks.write = some write ∧ write obj = some (writes, true)

/-- The object can be written in the scope `SameProcess` only. -/
def Narrows (obj : O) : Prop := Shares cx obj ∨ RequiresSameProcess cx obj

/-- An object has another in it, which is not to be avoided. -/
def Edge (avoid : List O) (a b : O) : Prop := object b ∈ children cx a ∧ b ∉ avoid

/-- The object can be reached from the value without those to be avoided. -/
def Reaches (avoid : List O) (v : CloneValue O) (obj : O) : Prop :=
  ∃ r, v.object? = some r ∧ r ∉ avoid ∧ ReflTransGen (Edge cx avoid) r obj

/-! ## The stacks -/

/-- The keys that are left of an object on the stack, with the number of its entries that are. -/
def pendingIds (frame : O × ℕ) : List Id :=
  (entryIds (cx.object frame.1)).drop ((entryIds (cx.object frame.1)).length - frame.2)

def pendingValues (frame : O × ℕ) : List (CloneValue O) :=
  (entryValues (cx.object frame.1)).drop ((entryValues (cx.object frame.1)).length - frame.2)

/-! ## Growth -/

/-- What lies between two states of the writer: it has remembered the objects `new`. -/
structure Growth (w w' : Writer O) (new : List O) : Prop where
  memory : w'.memory = w.memory ++ new
  fresh : ∀ o ∈ new, o ∉ w.memory
  nodup : new.Nodup
  inner : ∀ o ∈ new, ∀ c, object c ∈ innerValues cx o → c ∈ w'.memory
  out : ∃ bytes, w'.out = w.out ++ bytes
  refsHeld : w'.refsHeld ≠ [] ↔ w.refsHeld ≠ [] ∨ ∃ o ∈ new, Shares cx o
  narrows : (∃ o ∈ new, Narrows cx o) → w'.scope_ = w.narrow.scope_
  stays : (∀ o ∈ new, ¬ Narrows cx o) → w'.scope_ = w.scope_
  same : (∃ o ∈ new, Shares cx o) → w'.scope_ = .SameProcess
  transferableObjects : w'.transferableObjects = w.transferableObjects
  detached : w'.detached = w.detached
  extracted : w'.extracted = w.extracted

/-- Growth in which those of the new objects that have entries are pushed as `frames`. -/
structure Extension (w w' : Writer O) (frames : List (O × ℕ)) (new : List O) : Prop
    extends Growth cx w w' new where
  objs : w'.objs = frames.map Prod.fst ++ w.objs
  counts : w'.counts = frames.map Prod.snd ++ w.counts
  objectEntries : w'.objectEntries = frames.flatMap (pendingIds cx) ++ w.objectEntries
  otherEntries : w'.otherEntries = frames.flatMap (pendingValues cx) ++ w.otherEntries
  frames_new : ∀ f ∈ frames, f.1 ∈ new ∧ (cx.object f.1).hasEntries = true ∧ f.2 = entryCount (cx.object f.1)
  frames_nodup : (frames.map Prod.fst).Nodup
  pushed : ∀ o ∈ new, (cx.object o).hasEntries = true → o ∈ frames.map Prod.fst

variable {cx}

lemma Writer.narrow_narrow (w : Writer O) : w.narrow.narrow = w.narrow := by
  unfold narrow
  split_ifs <;> rfl

lemma Writer.narrow_scope_eq {w w' : Writer O} (h : w'.scope_ = w.scope_) : w'.narrow.scope_ = w.narrow.scope_ := by
  unfold narrow
  rw [h]

lemma Writer.narrow_scope_same {w : Writer O} (h : w.narrow.scope = .SameProcess) : w.narrow.scope_ = .SameProcess := by
  have hne : w.narrow.scope_ ≠ .UnknownDestination := by
    unfold narrow
    split_ifs with hs
    · simp
    · exact hs
  unfold scope at h
  rwa [if_neg hne] at h

namespace Growth

variable {w w' w'' : Writer O} {new new' : List O}

lemma of_same (hmemory : w'.memory = w.memory) (hout : ∃ bytes, w'.out = w.out ++ bytes)
    (hrefs : w'.refsHeld = w.refsHeld) (hscope : w'.scope_ = w.scope_)
    (htransferable : w'.transferableObjects = w.transferableObjects)
    (hdetached : w'.detached = w.detached) (hextracted : w'.extracted = w.extracted) :
    Growth cx w w' [] where
  memory := hmemory.trans (append_nil _).symm
  fresh := by simp
  nodup := nodup_nil
  inner := by simp
  out := hout
  refsHeld := by simp [hrefs]
  narrows := by simp
  stays _ := hscope
  same := by simp
  transferableObjects := htransferable
  detached := hdetached
  extracted := hextracted

lemma refl (w : Writer O) : Growth cx w w [] := of_same rfl ⟨[], (append_nil _).symm⟩ rfl rfl rfl rfl rfl

section

variable (h : Growth cx w w' new)

include h

lemma emit (bytes : List Byte) : Growth cx w (w'.emit bytes) new where
  __ := h
  out := by
    obtain ⟨bytes', hout⟩ := h.out
    exact ⟨bytes' ++ bytes, by rw [← append_assoc, ← hout]; rfl⟩

lemma memory_subset {o : O} (ho : o ∈ w.memory) : o ∈ w'.memory := by
  rw [h.memory]
  simp [ho]

lemma new_subset {o : O} (ho : o ∈ new) : o ∈ w'.memory := by
  rw [h.memory]
  simp [ho]

lemma narrow_scope : w'.narrow.scope_ = w.narrow.scope_ := by
  by_cases hnarrows : ∃ o ∈ new, Narrows cx o
  · calc w'.narrow.scope_ = w.narrow.narrow.scope_ := narrow_scope_eq (h.narrows hnarrows)
      _ = w.narrow.scope_ := by rw [narrow_narrow]
  · exact narrow_scope_eq (h.stays fun o ho hn => hnarrows ⟨o, ho, hn⟩)

theorem trans (h' : Growth cx w' w'' new') : Growth cx w w'' (new ++ new') where
  memory := by simp [h'.memory, h.memory]
  fresh o ho hmem := by
    obtain ho | ho := mem_append.1 ho
    · exact h.fresh o ho hmem
    · exact h'.fresh o ho (h.memory_subset hmem)
  nodup := by
    refine nodup_append.2 ⟨h.nodup, h'.nodup, fun a ha b hb hab => ?_⟩
    exact h'.fresh b hb (hab ▸ h.new_subset ha)
  inner o ho c hc := by
    obtain ho | ho := mem_append.1 ho
    · exact h'.memory_subset (h.inner o ho c hc)
    · exact h'.inner o ho c hc
  out := by
    obtain ⟨bytes, hout⟩ := h.out
    obtain ⟨bytes', hout'⟩ := h'.out
    exact ⟨bytes ++ bytes', by simp [hout', hout]⟩
  refsHeld := by
    rw [h'.refsHeld, h.refsHeld]
    simp [or_and_right, exists_or, or_assoc]
  narrows := by
    rintro ⟨o, ho, hnarrows⟩
    by_cases hnew' : ∃ o ∈ new', Narrows cx o
    · exact (h'.narrows hnew').trans h.narrow_scope
    · have hstays := h'.stays fun o ho hn => hnew' ⟨o, ho, hn⟩
      obtain ho | ho := mem_append.1 ho
      · exact hstays.trans (h.narrows ⟨o, ho, hnarrows⟩)
      · exact absurd ⟨o, ho, hnarrows⟩ hnew'
  stays hstays := (h'.stays fun o ho => hstays o (mem_append_right _ ho)).trans
    (h.stays fun o ho => hstays o (mem_append_left _ ho))
  same := by
    rintro ⟨o, ho, hshares⟩
    obtain ho | ho := mem_append.1 ho
    · have hsame := h.same ⟨o, ho, hshares⟩
      by_cases hnew' : ∃ o ∈ new', Narrows cx o
      · rw [h'.narrows hnew']
        unfold narrow
        split_ifs
        exacts [rfl, hsame]
      · exact (h'.stays fun o ho hn => hnew' ⟨o, ho, hn⟩).trans hsame
    · exact h'.same ⟨o, ho, hshares⟩
  transferableObjects := h'.transferableObjects.trans h.transferableObjects
  detached := h'.detached.trans h.detached
  extracted := h'.extracted.trans h.extracted

end

lemma node {obj : O} (hnew : obj ∉ w.memory) (h : Growth cx (w.remember obj) w' new) (hnarrows : ¬ Narrows cx obj)
    (hinner : ∀ c, object c ∈ innerValues cx obj → c ∈ w'.memory) :
    Growth cx w w' (obj :: new) where
  memory := by
    rw [h.memory]
    exact append_assoc _ _ _
  fresh o ho hmem := by
    obtain rfl | ho := mem_cons.1 ho
    · exact hnew hmem
    · exact h.fresh o ho (mem_append_left _ hmem)
  nodup := nodup_cons.2 ⟨fun hmem =>
    h.fresh obj hmem (mem_append_right _ (mem_singleton_self _)), h.nodup⟩
  inner o ho c hc := by
    obtain rfl | ho := mem_cons.1 ho
    · exact hinner c hc
    · exact h.inner o ho c hc
  out := h.out
  refsHeld := by
    rw [h.refsHeld, exists_mem_cons_iff]
    have hshares : ¬ Shares cx obj := fun hs => hnarrows (.inl hs)
    tauto
  narrows := by
    rintro ⟨o, ho, hn⟩
    obtain rfl | ho := mem_cons.1 ho
    · exact absurd hn hnarrows
    · exact h.narrows ⟨o, ho, hn⟩
  stays hstays := h.stays fun o ho => hstays o (mem_cons_of_mem _ ho)
  same := by
    rintro ⟨o, ho, hshares⟩
    obtain rfl | ho := mem_cons.1 ho
    · exact absurd (.inl hshares) hnarrows
    · exact h.same ⟨o, ho, hshares⟩
  transferableObjects := h.transferableObjects
  detached := h.detached
  extracted := h.extracted

lemma required {obj : O} (h : Growth cx (w.remember obj) w' new) (hnew : obj ∉ w.memory)
    (hrequired : RequiresSameProcess cx obj) (hshares : ¬ Shares cx obj)
    (hinner : ∀ c, object c ∈ innerValues cx obj → c ∈ w'.memory) :
    Growth cx w w'.narrow (obj :: new) where
  memory := by
    refine Eq.trans (b := w'.memory) rfl ?_
    rw [h.memory]
    exact append_assoc _ _ _
  fresh o ho hmem := by
    obtain rfl | ho := mem_cons.1 ho
    · exact hnew hmem
    · exact h.fresh o ho (mem_append_left _ hmem)
  nodup := nodup_cons.2 ⟨fun hmem =>
    h.fresh obj hmem (mem_append_right _ (mem_singleton_self _)), h.nodup⟩
  inner o ho c hc := by
    obtain rfl | ho := mem_cons.1 ho
    · exact hinner c hc
    · exact h.inner o ho c hc
  out := h.out
  refsHeld := by
    refine Iff.trans (b := w'.refsHeld ≠ []) Iff.rfl ?_
    rw [h.refsHeld, exists_mem_cons_iff]
    tauto
  narrows _ := h.narrow_scope
  stays hstays := absurd (.inr hrequired) (hstays obj mem_cons_self)
  same := by
    rintro ⟨o, ho, hs⟩
    obtain rfl | ho := mem_cons.1 ho
    · exact absurd hs hshares
    · unfold narrow
      have hsame := h.same ⟨o, ho, hs⟩
      simp [hsame]
  transferableObjects := h.transferableObjects
  detached := h.detached
  extracted := h.extracted

end Growth

namespace Extension

variable {w w' w'' : Writer O} {frames frames' : List (O × ℕ)} {new new' : List O}

lemma of_growth (h : Growth cx w w' new) (hobjs : w'.objs = w.objs) (hcounts : w'.counts = w.counts)
    (hids : w'.objectEntries = w.objectEntries) (hvalues : w'.otherEntries = w.otherEntries)
    (hentries : ∀ o ∈ new, (cx.object o).hasEntries = false) : Extension cx w w' [] new where
  __ := h
  objs := hobjs
  counts := hcounts
  objectEntries := hids
  otherEntries := hvalues
  frames_new := by simp
  frames_nodup := nodup_nil
  pushed o ho h := absurd ((hentries o ho).symm.trans h) (by decide)

lemma refl (w : Writer O) : Extension cx w w [] [] := of_growth (.refl w) rfl rfl rfl rfl (by simp)

lemma emit (h : Extension cx w w' frames new) (bytes : List Byte) : Extension cx w (w'.emit bytes) frames new where
  __ := h
  toGrowth := h.toGrowth.emit bytes

theorem trans (h : Extension cx w w' frames new) (h' : Extension cx w' w'' frames' new') :
    Extension cx w w'' (frames' ++ frames) (new ++ new') where
  toGrowth := h.toGrowth.trans h'.toGrowth
  objs := by simp [h'.objs, h.objs]
  counts := by simp [h'.counts, h.counts]
  objectEntries := by simp [h'.objectEntries, h.objectEntries]
  otherEntries := by simp [h'.otherEntries, h.otherEntries]
  frames_new f hf := by
    obtain hf | hf := mem_append.1 hf
    · obtain ⟨hnew, hrest⟩ := h'.frames_new f hf
      simp [hnew, hrest]
    · obtain ⟨hnew, hrest⟩ := h.frames_new f hf
      simp [hnew, hrest]
  frames_nodup := by
    rw [map_append]
    refine nodup_append.2 ⟨h'.frames_nodup, h.frames_nodup, fun a ha b hb hab => ?_⟩
    obtain ⟨f', hf', rfl⟩ := mem_map.1 ha
    obtain ⟨f, hf, rfl⟩ := mem_map.1 hb
    exact h'.fresh f'.1 (h'.frames_new f' hf').1 (hab ▸ h.new_subset (h.frames_new f hf).1)
  pushed o ho hentries := by
    rw [map_append]
    obtain ho | ho := mem_append.1 ho
    · exact mem_append_right _ (h.pushed o ho hentries)
    · exact mem_append_left _ (h'.pushed o ho hentries)

lemma node {obj : O} (h : Extension cx (w.remember obj) w' frames new)
    (hgrowth : Growth cx w w'' (obj :: new)) (hobjs : w''.objs = w'.objs)
    (hcounts : w''.counts = w'.counts) (hids : w''.objectEntries = w'.objectEntries)
    (hvalues : w''.otherEntries = w'.otherEntries) (hentries : (cx.object obj).hasEntries = false) :
    Extension cx w w'' frames (obj :: new) where
  toGrowth := hgrowth
  objs := hobjs.trans h.objs
  counts := hcounts.trans h.counts
  objectEntries := hids.trans h.objectEntries
  otherEntries := hvalues.trans h.otherEntries
  frames_new f hf := by
    obtain ⟨hmem, hrest⟩ := h.frames_new f hf
    simp [hmem, hrest]
  frames_nodup := h.frames_nodup
  pushed o ho hentries' := by
    obtain rfl | ho := mem_cons.1 ho
    · cases hentries.symm.trans hentries'
    · exact h.pushed o ho hentries'

end Extension

/-! ## Writing a value -/

lemma CloneObject.hasEntries_of_headerBytes {c : CloneObject O} {bytes : List Byte}
    (h : headerBytes cx c = some bytes) : c.hasEntries = true := by
  cases c <;> first | rfl | simp [headerBytes] at h

lemma CloneObject.entries_of_not_hasEntries {c : CloneObject O} (h : c.hasEntries = false) :
    c.properties = [] ∧ entryValues c = [] := by
  cases c <;> first | exact ⟨rfl, rfl⟩ | exact absurd h (by simp [CloneObject.hasEntries])

lemma innerValues_of_hasEntries {obj : O} (h : (cx.object obj).hasEntries = true) :
    innerValues cx obj = [] ∧ ¬ Narrows cx obj := by
  constructor
  · unfold innerValues
    cases hc : cx.object obj <;> first | rfl | exact absurd (hc ▸ h) (by simp [CloneObject.hasEntries])
  · rintro ((⟨rawbuf, byteLength, hc⟩ | ⟨buffer, hc⟩) | ⟨hc | hc | hc, -⟩)
    all_goals exact absurd (hc ▸ h) (by simp [CloneObject.hasEntries])

lemma innerValues_of_leafBytes {obj : O} {bytes : List Byte} (h : leafBytes (cx.object obj) = some bytes) :
    innerValues cx obj = [] ∧ ¬ Narrows cx obj ∧ (cx.object obj).hasEntries = false := by
  refine ⟨?_, ?_, ?_⟩
  · unfold innerValues
    cases hc : cx.object obj <;> first | rfl | exact absurd (hc ▸ h) (by simp [leafBytes])
  · rintro ((⟨rawbuf, byteLength, hc⟩ | ⟨buffer, hc⟩) | ⟨hc | hc | hc, -⟩)
    all_goals exact absurd (hc ▸ h) (by simp [leafBytes])
  · cases hc : cx.object obj <;> first | rfl | exact absurd (hc ▸ h) (by simp [leafBytes])

lemma innerValues_of_viewBytes {obj : O} {bytes : List Byte} {buffer : O} {byteOffset : ℕ}
    (h : viewBytes (cx.object obj) = some (bytes, buffer, byteOffset)) :
    innerValues cx obj = [.object buffer] ∧ ¬ Narrows cx obj ∧ (cx.object obj).hasEntries = false := by
  refine ⟨?_, ?_, ?_⟩
  · unfold innerValues
    cases hc : cx.object obj <;> rw [hc] at h <;> simp_all [viewBytes]
  · rintro ((⟨rawbuf, byteLength, hc⟩ | ⟨buffer, hc⟩) | ⟨hc | hc | hc, -⟩)
    all_goals exact absurd (hc ▸ h) (by simp [viewBytes])
  · cases hc : cx.object obj <;> first | rfl | exact absurd (hc ▸ h) (by simp [viewBytes])

/-! ## Reachable objects -/

namespace Reaches

variable {avoid avoid' : List O} {v : CloneValue O} {a b c : O}

lemma root (h : a ∉ avoid) : Reaches cx avoid (.object a) a := ⟨a, rfl, h, .refl⟩

lemma mono (h : Reaches cx avoid v a) (hsub : ∀ o ∈ avoid', o ∈ avoid) : Reaches cx avoid' v a := by
  obtain ⟨r, hr, hroot, hpath⟩ := h
  exact ⟨r, hr, fun h => hroot (hsub r h), ReflTransGen.mono (fun _ _ hE => ⟨hE.1, fun h => hE.2 (hsub _ h)⟩) _ _ hpath⟩

lemma child (hb : Reaches cx avoid v b) {v' : CloneValue O} (hv : v' ∈ children cx b)
    (h : Reaches cx avoid v' c) : Reaches cx avoid v c := by
  obtain ⟨r, hr, hroot, hpath⟩ := hb
  obtain ⟨r', hr', hroot', hpath'⟩ := h
  obtain rfl : v' = .object r' := by
    cases v' with
    | object o => exact congrArg _ (Option.some.inj hr')
    | _ => simp [object?] at hr'
  exact ⟨r, hr, hroot, (hpath.tail ⟨hv, hroot'⟩).trans hpath'⟩

end Reaches

/-! ## Writing values -/

variable (cx) in
/-- What writing some values does: it remembers objects that can be reached from the values, and the values
are remembered then. -/
def Covers (vs : List (CloneValue O)) (w w' : Writer O) : Prop :=
  ∃ frames new, Extension cx w w' frames new ∧ (∀ r, object r ∈ vs → r ∈ w'.memory) ∧
    ∀ o ∈ new, ∃ v ∈ vs, Reaches cx w.memory v o

namespace Covers

variable {vs vs' : List (CloneValue O)} {w w' w'' : Writer O}

lemma nil (w : Writer O) : Covers cx [] w w := ⟨[], [], .refl w, by simp, by simp⟩

lemma emit (h : Covers cx vs w w') (bytes : List Byte) : Covers cx vs w (w'.emit bytes) := by
  obtain ⟨frames, new, hext, hrest⟩ := h
  exact ⟨frames, new, hext.emit bytes, hrest⟩

lemma append (h : Covers cx vs w w') (h' : Covers cx vs' w' w'') : Covers cx (vs ++ vs') w w'' := by
  obtain ⟨frames, new, hext, hroots, hreach⟩ := h
  obtain ⟨frames', new', hext', hroots', hreach'⟩ := h'
  refine ⟨_, _, hext.trans hext', fun r hr => ?_, fun o ho => ?_⟩
  · obtain hr | hr := mem_append.1 hr
    · exact hext'.memory_subset (hroots r hr)
    · exact hroots' r hr
  · obtain ho | ho := mem_append.1 ho
    · obtain ⟨v, hv, hreach⟩ := hreach o ho
      exact ⟨v, mem_append_left _ hv, hreach⟩
    · obtain ⟨v, hv, hreach⟩ := hreach' o ho
      exact ⟨v, mem_append_right _ hv, hreach.mono fun _ => hext.memory_subset⟩

lemma of_extension {obj : O} {frames : List (O × ℕ)} {new : List O} (hobj : obj ∉ w.memory)
    (h : Extension cx w w' frames (obj :: new))
    (hreach : ∀ o ∈ new, ∃ v ∈ innerValues cx obj, Reaches cx w.memory v o) :
    Covers cx [.object obj] w w' := by
  refine ⟨frames, obj :: new, h, fun r hr => ?_, fun o ho => ⟨_, mem_singleton_self _, ?_⟩⟩
  · obtain rfl : r = obj := by simpa using hr
    exact h.new_subset mem_cons_self
  · obtain rfl | ho := mem_cons.1 ho
    · exact .root hobj
    · obtain ⟨v, hv, hreach⟩ := hreach o ho
      exact Reaches.child (.root hobj) (mem_append_right _ hv) hreach

lemma node {obj : O} (hobj : obj ∉ w.memory) (h : Covers cx (innerValues cx obj) (w.remember obj) w')
    (hentries : (cx.object obj).hasEntries = false) (hnarrows : ¬ Narrows cx obj) :
    Covers cx [.object obj] w w' := by
  obtain ⟨frames, new, hext, hroots, hreach⟩ := h
  refine of_extension hobj (hext.node (hext.toGrowth.node hobj hnarrows hroots) rfl rfl rfl rfl hentries)
    fun o ho => ?_
  obtain ⟨v, hv, hreach⟩ := hreach o ho
  exact ⟨v, hv, hreach.mono fun _ ho => mem_append_left _ ho⟩

lemma required {obj : O} (hobj : obj ∉ w.memory) (h : Covers cx (innerValues cx obj) (w.remember obj) w')
    (hentries : (cx.object obj).hasEntries = false) (hrequired : RequiresSameProcess cx obj)
    (hshares : ¬ Shares cx obj) : Covers cx [.object obj] w w'.narrow := by
  obtain ⟨frames, new, hext, hroots, hreach⟩ := h
  refine of_extension hobj (hext.node (hext.toGrowth.required hobj hrequired hshares hroots) rfl rfl rfl rfl
    hentries) fun o ho => ?_
  obtain ⟨v, hv, hreach⟩ := hreach o ho
  exact ⟨v, hv, hreach.mono fun _ ho => mem_append_left _ ho⟩

lemma shared {obj : O} (hobj : obj ∉ w.memory) (hshares : Shares cx obj)
    (hscope : (w.remember obj).narrow.scope = .SameProcess) (rawbuf : ℕ) (bytes : List Byte) :
    Covers cx [.object obj] w (((w.remember obj).narrow.hold rawbuf).emit bytes) := by
  have hkind : innerValues cx obj = [] ∧ (cx.object obj).hasEntries = false := by
    unfold innerValues
    obtain ⟨rawbuf, byteLength, hc⟩ | ⟨buffer, hc⟩ := hshares
    all_goals simp [hc, CloneObject.hasEntries]
  refine @of_extension _ _ _ _ _ [] [] hobj (.of_growth ?_ rfl rfl rfl rfl ?_) (by simp)
  · exact
      { memory := rfl
        fresh := by simpa using hobj
        nodup := nodup_singleton obj
        inner := by simp [hkind.1]
        out := ⟨bytes, rfl⟩
        refsHeld := by simp [Writer.emit, Writer.hold, hshares]
        narrows := fun _ => rfl
        stays := fun h => absurd (.inl hshares) (h obj (mem_singleton_self _))
        same := fun _ => Writer.narrow_scope_same hscope
        transferableObjects := rfl
        detached := rfl
        extracted := rfl }
  · simpa using hkind.2

lemma container {obj : O} (hobj : obj ∉ w.memory) (hentries : (cx.object obj).hasEntries = true)
    (bytes : List Byte) : Covers cx [.object obj] w (((w.remember obj).push obj (entryCount (cx.object obj))
      (entryIds (cx.object obj)) (entryValues (cx.object obj))).emit bytes) := by
  obtain ⟨hinner, hnarrows⟩ := innerValues_of_hasEntries hentries
  have hgrowth : Growth cx w (w.remember obj) [obj] :=
    (Growth.refl (w.remember obj)).node hobj hnarrows (by simp [hinner])
  refine @of_extension _ _ _ _ _ [(obj, entryCount (cx.object obj))] [] hobj ?_ (by simp)
  refine Extension.emit ?_ bytes
  exact
    { hgrowth with
      transferableObjects := rfl
      detached := rfl
      extracted := rfl
      objs := rfl
      counts := rfl
      objectEntries := by simp [push, remember, pendingIds, entryCount]
      otherEntries := by simp [push, remember, pendingValues, entryCount]
      frames_new := by simp [hentries]
      frames_nodup := nodup_singleton obj
      pushed := by simp }

lemma callback {inner : CloneValue O → Writer O → Writer O → Prop}
    (hinner : ∀ v w w', inner v w w' → Covers cx [v] w w') {writes : List (CallbackWrite O)} {w w' : Writer O}
    (h : CallbackWrote inner writes w w') : Covers cx (callbackValues writes) w w' := by
  induction writes generalizing w with
  | nil =>
    obtain rfl : w' = w := h
    exact .nil w'
  | cons write writes ih =>
    cases write with
    | words ws => exact ((nil w).emit (wordsBytes ws)).append (ih h)
    | typedArray v =>
      obtain ⟨w₁, hv, hrest⟩ := h
      exact (hinner v w w₁ hv).append (ih hrest)

variable [DecidableEq O]

lemma of_wroteWith {inner : CloneValue O → Writer O → Writer O → Prop}
    (hinner : ∀ v w w', inner v w w' → Covers cx [v] w w') {v : CloneValue O} (h : WroteWith cx inner v w w') :
    Covers cx [v] w w' := by
  cases h with
  | primitive hv =>
    refine emit ⟨[], [], .refl w, fun r hr => ?_, by simp⟩ _
    obtain rfl : object r = v := by simpa using hr
    exact absurd hv (by simp [object?])
  | @backref obj _ hmem =>
    refine emit ⟨[], [], .refl w, fun r hr => ?_, by simp⟩ _
    obtain rfl : r = obj := by simpa using hr
    exact hmem
  | leaf hnew hleaf =>
    obtain ⟨hvalues, hnarrows, hentries⟩ := innerValues_of_leafBytes hleaf
    exact (node hnew (hvalues ▸ .nil _) hentries hnarrows).emit _
  | container hnew hheader => exact container hnew (CloneObject.hasEntries_of_headerBytes hheader) _
  | shared hnew hobj hscope => exact shared hnew (.inl ⟨_, _, hobj⟩) hscope _ _
  | wasm hnew hobj hbuffer hscope => exact shared hnew (.inr ⟨_, hobj⟩) hscope _ _
  | @view obj _ bytes _ _ _ hnew hview hbuffer =>
    obtain ⟨hvalues, hnarrows, hentries⟩ := innerValues_of_viewBytes hview
    refine (node hnew ?_ hentries hnarrows).emit _
    rw [hvalues]
    exact ((nil (w.remember obj)).emit bytes).append (hinner _ _ _ hbuffer)
  | @other obj _ write writes required w₁ hnew hother hwrite hwrites hcallback =>
    have hvalues : innerValues cx obj = callbackValues writes := by
      unfold innerValues
      obtain hc | hc | hc := hother <;> simp [hc, hwrite, hwrites]
    have hentries : (cx.object obj).hasEntries = false := by
      obtain hc | hc | hc := hother <;> simp [hc, CloneObject.hasEntries]
    have hshares : ¬ Shares cx obj := by
      rintro (⟨rawbuf, byteLength, hc⟩ | ⟨buffer, hc⟩) <;>
        obtain hc' | hc' | hc' := hother <;> exact absurd (hc.symm.trans hc') (by simp)
    have hcovers : Covers cx (innerValues cx obj) (w.remember obj) w₁ := hvalues ▸ callback hinner hcallback
    split_ifs with hrequired
    · exact Covers.required hnew hcovers hentries ⟨hother, write, writes, hwrite, hrequired ▸ hwrites⟩ hshares
    · refine node hnew hcovers hentries ?_
      rintro (hs | ⟨-, write', writes', hwrite', hwrites'⟩)
      · exact hshares hs
      · obtain rfl : write = write' := Option.some.inj (hwrite.symm.trans hwrite')
        exact hrequired (Prod.mk.inj (Option.some.inj (hwrites.symm.trans hwrites'))).2

theorem of_wrote {v : CloneValue O} (h : Wrote cx v w w') : Covers cx [v] w w' := by
  have hdepth (depth : ℕ) (v : CloneValue O) (w w' : Writer O) (h : WroteDepth cx depth v w w') :
      Covers cx [v] w w' := by
    induction depth generalizing v w w' with
    | zero => exact h.elim
    | succ depth ih => exact of_wroteWith ih h
  exact hdepth 3 v w w' h

end Covers

end SpiderMonkey.StructuredClone
