import Ramag.ClipIndex

/-!
Pruning chooses its clips in one transaction, looks up their images in a second
and takes them out in a third. What other transactions may do in between so
that it still takes out what it chose (`Op.Spares`): the chosen clips stay as
they are, and no other clip makes room before them.
-/
namespace Ramag.PruneRuns
open Strings Domain Fields ClipFilter OrderedTables ClipStore ClipIndex List Function

theorem hexValue_digitChar : ∀ d : Fin 16, hexValue (Nat.digitChar d.val) = some d.val := by decide

theorem readHex_append (value : Nat) (first second : Text) :
    readHex value (first ++ second) = readHex value first >>= fun value => readHex value second := by
  induction first generalizing value with
  | nil => rfl
  | cons c first ih =>
    rw [cons_append, readHex, readHex]
    cases hexValue c with
    | none => rfl
    | some digit =>
      dsimp only
      split_ifs
      · exact ih _
      · rfl

theorem readHex_hexFixed {width n value : Nat} (small : n < 16 ^ width) (fits : value * 16 ^ width + n ≤ U64_MAX) :
    readHex value (hexFixed width n) = .ok (value * 16 ^ width + n) := by
  induction width generalizing n value with
  | zero =>
    rw [Nat.pow_zero, Nat.lt_one_iff] at small
    rw [small, Nat.pow_zero, Nat.mul_one, Nat.add_zero]
    rfl
  | succ width ih =>
    rw [Nat.pow_succ] at small fits ⊢
    have shape : (value * 16 ^ width + n / 16) * 16 + n % 16 = value * (16 ^ width * 16) + n := by
      rw [Nat.add_mul, Nat.mul_assoc]
      omega
    have below : value * 16 ^ width + n / 16 ≤ U64_MAX := by omega
    rw [hexFixed, readHex_append, ih (by omega) below]
    change readHex (value * 16 ^ width + n / 16) [Nat.digitChar (n % 16)] = _
    rw [readHex, hexValue_digitChar ⟨n % 16, Nat.mod_lt _ (by decide)⟩]
    dsimp only
    rw [shape, if_pos fits]
    rfl

theorem byteLen_hexFixed (width n : Nat) : byteLen (hexFixed width n) = width := by
  induction width generalizing n with
  | zero => rfl
  | succ width ih =>
    have one : ∀ d : Fin 16, (Nat.digitChar d.val).utf8Size = 1 := by decide
    rw [hexFixed, byteLen_append, ih, byteLen_cons, one ⟨n % 16, Nat.mod_lt _ (by decide)⟩]
    rfl

theorem parseHexU64_hexFixed {n : Nat} (fits : n ≤ U64_MAX) : parseHexU64 (hexFixed 16 n) = .ok n := by
  have read : readHex 0 (hexFixed 16 n) = .ok n := by
    rw [readHex_hexFixed (by simp only [U64_MAX] at fits; omega) (by omega), Nat.zero_mul, Nat.zero_add]
  have digits : ∀ c ∈ hexFixed 16 n, c ≠ '+' := by
    intro c mem
    obtain ⟨d, rfl⟩ := hexFixed_chars mem
    have all : ∀ d : Fin 16, Nat.digitChar d.val ≠ '+' := by decide
    exact all d
  have long := hexFixed_length 16 n
  generalize hexFixed 16 n = text at read digits long
  obtain ⟨c, text, rfl⟩ := exists_cons_of_length_eq_add_one long
  obtain ⟨d, text, rfl⟩ := exists_cons_of_length_eq_add_one (Nat.succ.inj long)
  unfold parseHexU64
  split
  · rename_i same
    cases same
  · rename_i same
    cases same
  · rename_i same
    cases same
  · rename_i rest same
    exact absurd (List.cons.inj same).1 (digits c mem_cons_self)
  · exact read

theorem millis_itemKey (item : ClipItem) : millisFromRecencyKey (itemKey item) = .ok (usedMillis item.lastUsedAt : Int) := by
  have plain : ':' ∉ hexFixed 16 (U64_MAX - usedMillis item.lastUsedAt) := by
    intro mem
    obtain ⟨d, same⟩ := hexFixed_chars mem
    have all : ∀ d : Fin 16, ':' ≠ Nat.digitChar d.val := by decide
    exact all d same
  have bound := usedMillis_lt item.lastUsedAt
  have named : item.id.text.isEmpty = false := by
    cases text : item.id.text with
    | nil => exact absurd text item.id.held
    | cons c rest => rfl
  have back : U64_MAX - (U64_MAX - usedMillis item.lastUsedAt) = usedMillis item.lastUsedAt := by
    simp only [U64_MAX]
    omega
  rw [millisFromRecencyKey, itemKey, recencyKey, splitOnce_part plain]
  dsimp only
  rw [named, byteLen_hexFixed, if_neg (by decide), parseHexU64_hexFixed (Nat.sub_le _ _)]
  dsimp only
  rw [back, asI64, if_pos bound]

theorem selectFrom_spec {excess : Nat} {cutoff : Int} {entries : List (Text × Text)} {index : Nat} {before doomed : List Text}
    (done : selectFrom excess cutoff index before entries = .ok doomed) : ∀ uuid ∈ doomed, uuid ∈ before ∨
      ∃ i rk, entries[i]? = some (rk, uuid) ∧ (index + i < excess ∨ ∃ millis, millisFromRecencyKey rk = .ok millis ∧ millis < cutoff) := by
  induction entries generalizing index before with
  | nil =>
    cases done
    exact fun uuid mem => .inl mem
  | cons entry entries ih =>
    obtain ⟨rk, own⟩ := entry
    obtain ⟨millis, read, done⟩ := bind_ok done
    have here (beyond : (!decide (index < excess) && !decide (millis < cutoff)) = false) :
        index + 0 < excess ∨ ∃ millis, millisFromRecencyKey rk = .ok millis ∧ millis < cutoff := by
      rw [Bool.and_eq_false_iff, Bool.not_eq_false', Bool.not_eq_false', decide_eq_true_iff, decide_eq_true_iff] at beyond
      exact beyond.imp id fun less => ⟨millis, read, less⟩
    dsimp only at done
    split_ifs at done with neither full
    · cases done
      exact fun uuid mem => .inl mem
    · cases done
      intro uuid mem
      rcases mem_append.mp mem with earlier | now
      · exact .inl earlier
      · exact .inr ⟨0, rk, by rw [mem_singleton.mp now]; rfl, here (Bool.eq_false_iff.mpr neither)⟩
    · intro uuid mem
      rcases ih done uuid mem with earlier | ⟨i, key, found, beyond⟩
      · rcases mem_append.mp earlier with earlier | now
        · exact .inl earlier
        · exact .inr ⟨0, rk, by rw [mem_singleton.mp now]; rfl, here (Bool.eq_false_iff.mpr neither)⟩
      · refine .inr ⟨i + 1, key, found, ?_⟩
        rwa [Nat.add_right_comm] at beyond

/-- The entries before a key, newest first. -/
def newer (byTime : Table Text Text) (rk : Text) : List (Text × Text) := byTime.entries.filter fun entry => decide (entry.1 < rk)

theorem le_newer {byTime : Table Text Text} {i : Nat} {entry : Text × Text} (found : byTime.entries[i]? = some entry) :
    i ≤ (newer byTime entry.1).length := by
  obtain ⟨inside, rfl⟩ := List.getElem?_eq_some_iff.mp found
  have split := byTime.ordered
  rw [← List.take_append_drop i byTime.entries, List.pairwise_append] at split
  have front : (byTime.entries.take i).filter (fun other => decide (other.1 < byTime.entries[i].1)) = byTime.entries.take i := by
    refine filter_eq_self.mpr fun other mem => decide_eq_true (split.2.2 other mem byTime.entries[i] ?_)
    rw [drop_eq_getElem_cons inside]
    exact mem_cons_self
  have part := ((take_sublist i byTime.entries).filter fun other => decide (other.1 < byTime.entries[i].1)).length_le
  rw [front, length_take, Nat.min_eq_left (Nat.le_of_lt inside)] at part
  exact part

theorem selectPruneCandidates_spec {byTime : Table Text Text} {maxItems : Nat} {cutoff : Int} {doomed : List Text}
    (done : selectPruneCandidates byTime maxItems cutoff = .ok doomed) : ∀ uuid ∈ doomed,
      ∃ rk, byTime.get rk = some uuid ∧ (maxItems ≤ (newer byTime rk).length ∨
        ∃ millis, millisFromRecencyKey rk = .ok millis ∧ millis < cutoff) := by
  have choice : ∃ oldest : Bool, (if byTime.entries.length ≤ maxItems && !oldest then .ok []
      else selectFrom (byTime.entries.length - maxItems) cutoff 0 [] byTime.entries.reverse) = .ok doomed := by
    rw [selectPruneCandidates] at done
    split at done
    · obtain ⟨oldest, -, done⟩ := bind_ok done
      exact ⟨oldest, done⟩
    · exact ⟨false, done⟩
  obtain ⟨oldest, done⟩ := choice
  split_ifs at done
  · cases done
    exact fun uuid mem => absurd mem not_mem_nil
  intro uuid mem
  obtain earlier | ⟨i, rk, found, beyond⟩ := selectFrom_spec done uuid mem
  · exact absurd earlier not_mem_nil
  have inside : i < byTime.entries.length := by
    have := (List.getElem?_eq_some_iff.mp found).1
    rwa [List.length_reverse] at this
  rw [List.getElem?_reverse inside] at found
  refine ⟨rk, Table.get_eq_some.mpr (mem_of_getElem? found), beyond.imp (fun few => ?_) id⟩
  have := le_newer found
  dsimp only at this
  omega

/-! ### What may happen in between -/

section
variable {ρ : Type} {cipher : Cipher ρ}

def Expired (cutoff : Int) (item : ClipItem) : Prop := timestampMillis item.lastUsedAt < cutoff

/-- As many clips as may stay are more recent. -/
def Outside (maxItems : Nat) (store : ClipTables ρ) (item : ClipItem) : Prop :=
  maxItems ≤ (newer store.byTime (itemKey item)).length

instance (cutoff : Int) (item : ClipItem) : Decidable (Expired cutoff item) :=
  inferInstanceAs (Decidable (timestampMillis item.lastUsedAt < cutoff))

instance (maxItems : Nat) (store : ClipTables ρ) (item : ClipItem) : Decidable (Outside maxItems store item) :=
  inferInstanceAs (Decidable (maxItems ≤ (newer store.byTime (itemKey item)).length))

def media (item : ClipItem) : List Text := item.imagePath.toList ++ item.thumbPath.toList

/-- The transaction leaves the chosen clips as they are. If not all of them are over the age, then no other
    clip goes or moves back. -/
def Spares (cipher : Cipher ρ) (doomed : List Text) (aged : Prop) (store : ClipTables ρ) : Op ρ → Prop
  | .save item => item.id.text ∉ doomed ∧ (aged ∨ ∀ old, Holds cipher store old → old.id.text = item.id.text → itemKey item ≤ itemKey old)
  | .delete id => id ∉ doomed ∧ (aged ∨ store.clips.get id = none)
  | .prune maxItems cutoff seen _ =>
    ∀ others, selectPruneCandidates seen.byTime maxItems cutoff = .ok others → (∀ uuid ∈ others, uuid ∉ doomed) ∧ (aged ∨ others = [])
  | .clear => doomed = []
  | .migrateIndexes _ => True

def SparedRun (cipher : Cipher ρ) (doomed : List Text) (aged : Prop) (store : ClipTables ρ) : List (Op ρ) → Prop
  | [] => True
  | op :: ops => Spares cipher doomed aged store op ∧ SparedRun cipher doomed aged (op.next cipher store) ops

def Aged (cipher : Cipher ρ) (cutoff : Int) (store : ClipTables ρ) (doomed : List Text) : Prop :=
  ∀ item, Holds cipher store item → item.id.text ∈ doomed → Expired cutoff item

/-- The transactions spare what is chosen from the store they start with. -/
def Spared (cipher : Cipher ρ) (maxItems : Nat) (cutoff : Int) (seen : ClipTables ρ) (ops : List (Op ρ)) : Prop :=
  ∀ doomed, selectPruneCandidates seen.byTime maxItems cutoff = .ok doomed →
    SparedRun cipher doomed (Aged cipher cutoff seen doomed) seen ops

/-- Every clip is still there, and no further back. -/
def Forward (history later : History) : Prop :=
  ∀ uuid item, history uuid = some item → ∃ clip, later uuid = some clip ∧ itemKey clip ≤ itemKey item

theorem Forward.refl (history : History) : Forward history history := fun _ item held => ⟨item, held, le_refl _⟩

theorem Forward.trans {first second third : History} (before : Forward first second) (after : Forward second third) :
    Forward first third := by
  intro uuid item held
  obtain ⟨clip, held, nearer⟩ := before uuid item held
  obtain ⟨last, held, further⟩ := after uuid clip held
  exact ⟨last, held, further.trans nearer⟩

variable {history : History}

theorem update_forward {item : ClipItem} (nearer : ∀ old, history item.id.text = some old → itemKey item ≤ itemKey old) :
    Forward history (update history item.id.text (some item)) := by
  intro uuid clip held
  by_cases own : uuid = item.id.text
  · subst own
    exact ⟨item, update_self .., nearer clip held⟩
  · exact ⟨clip, by rw [update_of_ne own, held], le_refl _⟩

variable {doomed : List Text} {aged : Prop}

theorem spared_next {store : ClipTables ρ} (rep : Represents cipher store history)
    (none' : doomed = [] → aged) (op : Op ρ) (spares : Spares cipher doomed aged store op) :
    ∃ later, Represents cipher (op.next cipher store) later ∧ (∀ uuid ∈ doomed, later uuid = history uuid) ∧
      (aged ∨ Forward history later) := by
  rw [Op.next]
  cases done : op.run cipher store with
  | error _ => exact ⟨history, rep, fun _ _ => rfl, .inr (.refl history)⟩
  | ok next =>
    cases op with
    | save item =>
      obtain ⟨apart, nearer⟩ := spares
      refine ⟨_, save_represents rep done, fun uuid mem => update_of_ne ?_ _ _, ?_⟩
      · rintro rfl
        exact apart mem
      · refine nearer.imp id fun nearer => update_forward fun old held => nearer old ?_ (rep.named held)
        exact (rep.holds old).mpr (rep.self held)
    | delete uuid =>
      obtain ⟨apart, absent⟩ := spares
      refine ⟨_, delete_represents rep done, fun other mem => update_of_ne ?_ _ _, ?_⟩
      · rintro rfl
        exact apart mem
      refine absent.imp id fun absent => ?_
      have free : history uuid = none := by
        have both := rep.clips_isSome uuid
        rw [absent] at both
        exact Option.isNone_iff_eq_none.mp (Option.isSome_eq_false_iff.mp both.symm)
      rw [← free, update_eq_self]
      exact .refl history
    | prune maxItems cutoff seen shown =>
      rcases prune_cases done with rfl | ⟨others, chosen, removed⟩
      · exact ⟨history, rep, fun _ _ => rfl, .inr (.refl history)⟩
      obtain ⟨apart, few⟩ := spares others chosen
      refine ⟨_, (removeDoomed_represents others rep removed).1, fun uuid mem => ?_, few.imp id fun few => ?_⟩
      · rw [if_neg fun other => apart uuid other mem]
      · subst few
        simpa using Forward.refl history
    | clear =>
      cases done
      refine ⟨_, represents_empty true, fun uuid mem => ?_, .inl (none' spares)⟩
      rw [show doomed = [] from spares] at mem
      cases mem
    | migrateIndexes seen => exact ⟨history, (migrateIndexes_represents rep seen done).1, fun _ _ => rfl, .inr (.refl history)⟩

theorem spared_run {ops : List (Op ρ)} {store : ClipTables ρ} (rep : Represents cipher store history)
    (none' : doomed = [] → aged) (spared : SparedRun cipher doomed aged store ops) :
    ∃ later, Represents cipher (ops.foldl (fun store op => op.next cipher store) store) later ∧
      (∀ uuid ∈ doomed, later uuid = history uuid) ∧ (aged ∨ Forward history later) := by
  induction ops generalizing store history with
  | nil => exact ⟨history, rep, fun _ _ => rfl, .inr (.refl history)⟩
  | cons op ops ih =>
    obtain ⟨first, rest⟩ := spared
    obtain ⟨middle, rep, same, forward⟩ := spared_next rep none' op first
    obtain ⟨later, rep, same', forward'⟩ := ih rep rest
    refine ⟨later, rep, fun uuid mem => (same' uuid mem).trans (same uuid mem), ?_⟩
    rcases forward with aged | forward
    · exact .inl aged
    · exact forward'.imp id forward.trans

theorem sparedRun_left {first second : List (Op ρ)} {store : ClipTables ρ}
    (spared : SparedRun cipher doomed aged store (first ++ second)) : SparedRun cipher doomed aged store first := by
  induction first generalizing store with
  | nil => trivial
  | cons op ops ih => exact ⟨spared.1, ih spared.2⟩

theorem newer_le {store later : ClipTables ρ} {history' : History} (rep : Represents cipher store history)
    (rep' : Represents cipher later history') (forward : Forward history history') (rk : Text) :
    (newer store.byTime rk).length ≤ (newer later.byTime rk).length := by
  have nodup : ((newer store.byTime rk).map (·.2)).Nodup := by
    have all := (times_perm rep).nodup_iff.mpr (store.clips.keys_ordered.imp ne_of_lt)
    exact all.sublist (filter_sublist.map _)
  have sub : (newer store.byTime rk).map (·.2) ⊆ (newer later.byTime rk).map (·.2) := by
    intro uuid mem
    obtain ⟨entry, inside, rfl⟩ := mem_map.mp mem
    obtain ⟨own, before⟩ := mem_filter.mp inside
    obtain ⟨item, held, key⟩ := (rep.times entry.1 entry.2).mp (Table.get_eq_some.mpr own)
    obtain ⟨clip, held, nearer⟩ := forward _ item held
    refine mem_map.mpr ⟨(itemKey clip, entry.2), mem_filter.mpr ⟨?_, ?_⟩, rfl⟩
    · exact Table.get_eq_some.mp ((rep'.times _ _).mpr ⟨clip, held, rfl⟩)
    · have less : itemKey clip < rk := nearer.trans_lt (key ▸ of_decide_eq_true before)
      exact decide_eq_true less
  have := (nodup.subperm sub).length_le
  rwa [length_map, length_map] at this

theorem doomedImages_congr {clips other : Table Text ρ} (same : ∀ uuid ∈ doomed, clips.get uuid = other.get uuid)
    (images : List Text × Nat) : doomedImages cipher clips images doomed = doomedImages cipher other images doomed := by
  induction doomed generalizing images with
  | nil => rfl
  | cons uuid doomed ih =>
    obtain ⟨own, rest⟩ := forall_mem_cons.mp same
    rw [doomedImages, doomedImages, own]
    cases other.get uuid with
    | none => rfl
    | some value =>
      dsimp only
      cases cipher.decodeRecord uuid value with
      | error error => rfl
      | ok item =>
        change (pushMediaPaths images (media item) >>= _) = pushMediaPaths images (media item) >>= _
        cases pushMediaPaths images (media item) with
        | error error => rfl
        | ok images => exact ih rest images

theorem pushMediaPaths_ok {paths : List Text} {images result : List Text × Nat} (done : pushMediaPaths images paths = .ok result) :
    result.1 = images.1 ++ paths := by
  induction paths generalizing images with
  | nil =>
    cases done
    exact (append_nil _).symm
  | cons path paths ih =>
    obtain ⟨next, pushed, done⟩ := bind_ok done
    rw [ih done]
    rw [pushMediaPath] at pushed
    split_ifs at pushed
    rw [← Except.ok.inj pushed, append_assoc]
    rfl

theorem doomedImages_ok {clips : Table Text ρ} {images result : List Text × Nat}
    (done : doomedImages cipher clips images doomed = .ok result) : ∀ path ∈ result.1, path ∈ images.1 ∨
      ∃ uuid ∈ doomed, ∃ value item, clips.get uuid = some value ∧ cipher.decodeRecord uuid value = .ok item ∧ path ∈ media item := by
  induction doomed generalizing images with
  | nil =>
    cases done
    exact fun path mem => .inl mem
  | cons uuid doomed ih =>
    rw [doomedImages] at done
    cases stored : clips.get uuid with
    | none =>
      rw [stored] at done
      cases done
    | some value =>
      rw [stored] at done
      simp only [bind_ok_iff] at done
      obtain ⟨item, read, more, pushed, done⟩ := done
      intro path mem
      rcases ih done path mem with earlier | ⟨other, inside, rest⟩
      · rw [pushMediaPaths_ok pushed] at earlier
        rcases mem_append.mp earlier with earlier | own
        · exact .inl earlier
        · exact .inr ⟨uuid, mem_cons_self, value, item, stored, read, own⟩
      · exact .inr ⟨other, mem_cons_of_mem _ inside, rest⟩

theorem removeDoomed_congr {store other next : ClipTables ρ}
    (same : ∀ uuid ∈ doomed, store.uuidMeta.get uuid = other.uuidMeta.get uuid) (done : removeDoomed store doomed = .ok next) :
    ∃ later, removeDoomed other doomed = .ok later := by
  induction doomed generalizing store other with
  | nil => exact ⟨other, rfl⟩
  | cons uuid doomed ih =>
    obtain ⟨own, rest⟩ := forall_mem_cons.mp same
    rw [removeDoomed] at done ⊢
    rw [← own]
    cases found : store.uuidMeta.get uuid with
    | none =>
      rw [found] at done
      cases done
    | some value =>
      rw [found] at done
      obtain ⟨pair, read, done⟩ := bind_ok done
      have gone : ∀ later ∈ doomed, (removeEntry uuid pair.1 pair.2 store).uuidMeta.get later =
          (removeEntry uuid pair.1 pair.2 other).uuidMeta.get later := by
        intro later mem
        rw [removeEntry, removeEntry, Table.get_remove, Table.get_remove, rest later mem]
      obtain ⟨next, done⟩ := ih gone done
      refine ⟨next, ?_⟩
      dsimp only
      rw [read]
      exact done

theorem record_congr {store other : ClipTables ρ} {history' : History} (rep : Represents cipher store history)
    (rep' : Represents cipher other history') {uuid : Text} (same : history' uuid = history uuid) :
    store.clips.get uuid = other.clips.get uuid := by
  have first := rep.clips uuid
  have second := rep'.clips uuid
  rw [same] at second
  generalize store.clips.get uuid = record at first
  generalize other.clips.get uuid = record' at second
  generalize history uuid = item at first second
  cases first with
  | none =>
    cases second
    rfl
  | some encoded =>
    cases second with
    | some encoded' =>
      rw [encoded] at encoded'
      rw [Except.ok.inj encoded']

/-- Pruning succeeds if it does by itself. What it takes out is over the age or over the count, and the images
    it returns are those of clips that it took out. -/
structure PruneSafe (cipher : Cipher ρ) (maxItems : Nat) (cutoff : Int) (seen shown store : ClipTables ρ) : Prop where
  succeeds : ∀ alone, prune cipher maxItems cutoff seen seen seen = .ok alone →
    ∃ result, prune cipher maxItems cutoff seen shown store = .ok result
  removes : ∀ next paths, prune cipher maxItems cutoff seen shown store = .ok (next, paths) →
    ∀ item, Holds cipher store item → ¬ Holds cipher next item → Expired cutoff item ∨ Outside maxItems store item
  images : ∀ next paths, prune cipher maxItems cutoff seen shown store = .ok (next, paths) →
    ∀ path ∈ paths, ∃ item, Holds cipher store item ∧ ¬ Holds cipher next item ∧ path ∈ media item

/-- The store after these transactions. -/
def after (cipher : Cipher ρ) (ops : List (Op ρ)) : ClipTables ρ :=
  ops.foldl (fun store op => op.next cipher store) (.empty true)

theorem prune_ok {maxItems : Nat} {cutoff : Int} {seen shown store next : ClipTables ρ} {paths : List Text}
    (done : prune cipher maxItems cutoff seen shown store = .ok (next, paths)) :
    ∃ doomed, selectPruneCandidates seen.byTime maxItems cutoff = .ok doomed ∧ ((doomed = [] ∧ next = store ∧ paths = []) ∨
      ∃ images, doomedImages cipher shown.clips ([], 0) doomed = .ok images ∧ removeDoomed store doomed = .ok next ∧ paths = images.1) := by
  obtain ⟨doomed, chosen, done⟩ := bind_ok done
  refine ⟨doomed, chosen, ?_⟩
  split_ifs at done with none'
  · cases done
    exact .inl ⟨isEmpty_iff.mp none', rfl, rfl⟩
  simp only [bind_ok_iff] at done
  obtain ⟨images, looked, later, removed, done⟩ := done
  cases done
  exact .inr ⟨images, looked, removed, rfl⟩

/-- Pruning is safe when the transactions in between spare what it chose. -/
theorem prune_spared (cipher : Cipher ρ) (ops gap later : List (Op ρ)) (maxItems : Nat) (cutoff : Int)
    (spared : Spared cipher maxItems cutoff (after cipher ops) (gap ++ later)) :
    PruneSafe cipher maxItems cutoff (after cipher ops) (after cipher (ops ++ gap)) (after cipher (ops ++ (gap ++ later))) := by
  obtain ⟨history, rep⟩ := foldl_represents (@represents_empty _ cipher true) ops
  have rep : Represents cipher (after cipher ops) history := rep
  have between {doomed : List Text} (chosen : selectPruneCandidates (after cipher ops).byTime maxItems cutoff = .ok doomed) :
      (∃ shown, Represents cipher (after cipher (ops ++ gap)) shown ∧ ∀ uuid ∈ doomed, shown uuid = history uuid) ∧
        ∃ last, Represents cipher (after cipher (ops ++ (gap ++ later))) last ∧ (∀ uuid ∈ doomed, last uuid = history uuid) ∧
          (Aged cipher cutoff (after cipher ops) doomed ∨ Forward history last) := by
    have none' : doomed = [] → Aged cipher cutoff (after cipher ops) doomed := by
      rintro rfl item _ mem
      cases mem
    have spares := spared doomed chosen
    rw [after, after, foldl_append, foldl_append]
    refine ⟨?_, spared_run rep none' spares⟩
    obtain ⟨shown, represents, same, -⟩ := spared_run rep none' (sparedRun_left spares)
    exact ⟨shown, represents, same⟩
  refine ⟨?_, ?_, ?_⟩
  · rintro ⟨next, paths⟩ done
    obtain ⟨doomed, chosen, ⟨none', -⟩ | ⟨images, looked, removed, -⟩⟩ := prune_ok done
    · refine ⟨(after cipher (ops ++ (gap ++ later)), []), ?_⟩
      rw [prune, chosen, none']
      rfl
    obtain ⟨⟨shown, rep', same'⟩, last, rep'', same'', -⟩ := between chosen
    have again : doomedImages cipher (after cipher (ops ++ gap)).clips ([], 0) doomed = .ok images := by
      rw [← looked]
      exact doomedImages_congr (fun uuid mem => (record_congr rep rep' (same' uuid mem)).symm) _
    obtain ⟨result, removed⟩ := @removeDoomed_congr _ doomed _ (after cipher (ops ++ (gap ++ later))) _ (fun uuid mem => by
      rw [rep.metas, rep''.metas, same'' uuid mem]) removed
    by_cases none' : doomed.isEmpty = true
    · refine ⟨(after cipher (ops ++ (gap ++ later)), []), ?_⟩
      rw [prune, chosen]
      change (if doomed.isEmpty = true then _ else _) = _
      rw [if_pos none']
    refine ⟨(result, images.1), ?_⟩
    rw [prune, chosen]
    change (if doomed.isEmpty = true then _ else _) = _
    rw [if_neg none', again]
    change (removeDoomed (after cipher (ops ++ (gap ++ later))) doomed >>= _) = _
    rw [removed]
    rfl
  · intro next paths done item holds gone
    obtain ⟨doomed, chosen, ⟨-, rfl, -⟩ | ⟨images, -, removed, -⟩⟩ := prune_ok done
    · exact absurd holds gone
    obtain ⟨-, last, rep', same, room⟩ := between chosen
    have held := (rep'.holds item).mp holds
    have mem : item.id.text ∈ doomed := by
      by_contra apart
      refine gone (((removeDoomed_represents doomed rep' removed).1.holds item).mpr ?_)
      rw [if_neg apart, held]
    rw [same _ mem] at held
    obtain ⟨rk, time, beyond⟩ := selectPruneCandidates_spec chosen _ mem
    obtain ⟨clip, held', key⟩ := (rep.times rk _).mp time
    rw [held] at held'
    cases held'
    rcases beyond with many | ⟨millis, read, old⟩
    · rcases room with aged | forward
      · exact .inl (aged item ((rep.holds item).mpr held) mem)
      · rw [← key] at many
        exact .inr (many.trans (newer_le rep rep' forward (itemKey item)))
    rw [← key, millis_itemKey] at read
    rw [← Except.ok.inj read] at old
    left
    rw [usedMillis] at old
    rw [Expired]
    omega
  · intro next paths done path mem
    obtain ⟨doomed, chosen, ⟨-, -, rfl⟩ | ⟨images, looked, removed, rfl⟩⟩ := prune_ok done
    · cases mem
    obtain ⟨⟨shown, rep', same'⟩, last, rep'', same'', -⟩ := between chosen
    rcases doomedImages_ok looked path mem with none' | ⟨uuid, inside, value, item, stored, read, own⟩
    · cases none'
    have held : shown uuid = some item := by
      have both := rep'.clips uuid
      rw [stored] at both
      generalize shown uuid = clip at both
      cases both with
      | some encoded =>
        rw [cipher.readsBack _ _ encoded] at read
        rw [Except.ok.inj read]
    have last_held : last uuid = some item := by rw [same'' uuid inside, ← same' uuid inside, held]
    refine ⟨item, (rep''.holds item).mpr (rep''.self last_held), fun kept => ?_, own⟩
    have still := ((removeDoomed_represents doomed rep'' removed).1.holds item).mp kept
    rw [rep''.named last_held, if_pos inside] at still
    cases still

end

def thirdSample : ClipItem := sample (sampleId '3' isDigit_three)

/-- The second clip, used again later. -/
def touchedSample : ClipItem := { secondSample with lastUsedAt := ⟨5000000, by decide⟩ }

/-- A clip is added while another is pruned. -/
theorem prune_spared_added : PruneSafe plainCipher 1 0 (after plainCipher [.save firstSample, .save secondSample])
    (after plainCipher [.save firstSample, .save secondSample, .save thirdSample])
    (after plainCipher [.save firstSample, .save secondSample, .save thirdSample]) := by
  refine prune_spared plainCipher [.save firstSample, .save secondSample] [.save thirdSample] [] 1 0 fun doomed chosen => ?_
  have chosen' : selectPruneCandidates (after plainCipher [.save firstSample, .save secondSample]).byTime 1 0 = .ok [['2']] := rfl
  rw [chosen'] at chosen
  cases chosen
  refine ⟨⟨by decide, .inr fun old holds same => ?_⟩, trivial⟩
  obtain ⟨record, found, -⟩ := holds
  rw [same] at found
  cases found

/-- A clip that was chosen and is used again before it is taken out is gone, and it was the newest. -/
theorem prune_touched : ¬ ∀ (ops gap later : List (Op ClipItem)) (maxItems : Nat) (cutoff : Int),
    PruneSafe plainCipher maxItems cutoff (after plainCipher ops) (after plainCipher (ops ++ gap))
      (after plainCipher (ops ++ (gap ++ later))) := by
  intro law
  have safe := law [.save firstSample, .save secondSample] [.save touchedSample] [] 1 0
  have gone := safe.removes (removeEntry ['2'] (itemKey touchedSample) ['h']
    (after plainCipher [.save firstSample, .save secondSample, .save touchedSample])) [] rfl touchedSample ⟨touchedSample, rfl, rfl⟩ ?_
  · rcases gone with expired | outside
    · exact absurd expired (by decide)
    · exact absurd outside (by decide)
  · rintro ⟨record, found, -⟩
    cases found

end Ramag.PruneRuns
