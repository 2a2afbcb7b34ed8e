import CodexFold.Contain.Scan

/- Containment is exact.

   The search keeps two facts about the records seen so far: which beginning of the
   needle's fingerprints ends them, and that the needle itself does not occur in
   them. A full match of fingerprints has the sizes of the needle's records, so the
   byte range that is compared is that of the last records seen, and equal bytes cut
   at equal lengths are equal records. -/
namespace CodexFold.Contain
open Foundation List Option

section
variable {disk : Disk}

theorem wrapped_yields {α : Type} {message : String} {x : Prog Disk String α} {a : α} (h : Yields x disk a) :
    Yields (wrapped message x) disk a := by
  refine ⟨.bind' (.attempt' h.1) (.ofExcept' _ rfl), ?_⟩
  refine .bind' (M := fun r t => ∀ b, r = .ok b → b = a ∧ t = disk) (.attempt' ?_) (fun r => ?_)
  · refine h.2.post (fun b t hb c hc => ?_) nofun fun _ hc => hc
    cases hc
    exact hb
  · cases r with
    | ok b => exact .pure' b fun t ht => ht b rfl
    | error e => exact .throw' _ fun _ _ => trivial

theorem readFull_ok {data : Bytes} {offset size : Nat} (h : offset + size ≤ data.length) :
    readFull data offset size = .ok ((data.drop offset).take size) := by
  have hlen : ((data.drop offset).take size).length = size := by
    simp only [length_take, length_drop]
    omega
  simp only [readFull, hlen, if_true]

/-- The comparison of two ranges that both files have. The induction is on the fuel:
    every round compares at least one byte. -/
theorem compareRanges_yields (left right : Bytes) : ∀ (fuel leftOffset rightOffset remaining : Nat),
    remaining < fuel → leftOffset + remaining ≤ left.length → rightOffset + remaining ≤ right.length →
    Yields (compareRanges left right fuel leftOffset rightOffset remaining) disk
      (decide ((left.drop leftOffset).take remaining = (right.drop rightOffset).take remaining))
  | 0, _, _, _, hfuel, _, _ => absurd hfuel (Nat.not_lt_zero _)
  | fuel + 1, leftOffset, rightOffset, remaining, hfuel, hleft, hright => by
    unfold compareRanges
    by_cases hzero : remaining = 0
    · subst hzero
      simp only [if_true, take_zero, decide_true]
      exact .pure' _ _
    · rw [if_neg hzero]
      have hbuffer : 0 < compareBufferBytes := by decide
      generalize hchunk : min compareBufferBytes remaining = chunk
      have hsplit : ∀ (data : Bytes) (offset : Nat), (data.drop offset).take remaining =
          (data.drop offset).take chunk ++ (data.drop (offset + chunk)).take (remaining - chunk) := by
        intro data offset
        rw [← drop_drop, ← take_add, show chunk + (remaining - chunk) = remaining by omega]
      refine .bind' (.point' _ _) (.bind' (.point' _ _) ?_)
      refine .bind' (.ofExcept' _ (readFull_ok (by omega))) ?_
      refine .bind' (.point' _ _) ?_
      refine .bind' (.ofExcept' _ (readFull_ok (by omega))) ?_
      have hlen : ((left.drop leftOffset).take chunk).length = ((right.drop rightOffset).take chunk).length := by
        simp only [length_take, length_drop]
        omega
      rw [hsplit left, hsplit right]
      by_cases heq : (left.drop leftOffset).take chunk = (right.drop rightOffset).take chunk
      · rw [if_pos heq, heq]
        simp only [append_cancel_left_eq]
        exact compareRanges_yields left right fuel _ _ _ (by omega) (by omega) (by omega)
      · rw [if_neg heq]
        have hne : ¬(left.drop leftOffset).take chunk ++ (left.drop (leftOffset + chunk)).take (remaining - chunk) =
            (right.drop rightOffset).take chunk ++ (right.drop (rightOffset + chunk)).take (remaining - chunk) :=
          fun h => heq (append_inj h hlen).1
        rw [decide_eq_false hne]
        exact .pure' _ _

theorem equalFileRanges_yields {leftPath rightPath : String} {left right : Bytes}
    (leftOffset rightOffset size : Nat) (hl : disk.get leftPath = some left)
    (hr : disk.get rightPath = some right) (hleft : leftOffset + size ≤ left.length)
    (hright : rightOffset + size ≤ right.length) :
    Yields (equalFileRanges leftPath leftOffset rightPath rightOffset size) disk
      (decide ((left.drop leftOffset).take size = (right.drop rightOffset).take size)) :=
  .bind' (openFile_yields hl) (.bind' (openFile_yields hr)
    (compareRanges_yields left right _ _ _ _ (Nat.lt_succ_self _) hleft hright))

end

/-! ## Positions -/

theorem take_drop_flatten (before run after : List Bytes) :
    ((before ++ run ++ after).flatten.drop before.flatten.length).take run.flatten.length = run.flatten := by
  rw [flatten_append, flatten_append, append_assoc, drop_left, take_left]

theorem infix_of_short {α : Type} {seen post needle before after : List α}
    (h : seen ++ post = before ++ needle ++ after) (hlen : before.length + needle.length ≤ seen.length) :
    needle <:+: seen := by
  have hpre : before ++ needle <+: seen := by
    refine prefix_of_prefix_length_le ?_ (prefix_append seen post) ?_
    · rw [h]
      exact prefix_append _ _
    · rw [length_append]
      exact hlen
  exact (suffix_append before needle).isInfix.trans hpre.isInfix

/-! ## The two scans -/

section
variable {Digest : Type} {sha256 : Bytes → Digest} {envelopeType : Bytes → Option String}
  {disk : Disk} {ignoreSessionMeta : Bool}
variable {needle : List Bytes} {needleData containerData : Bytes}

/-- What `sameFingerprint` sees of a record. -/
def fingerprint (sha256 : Bytes → Digest) (r : Bytes) : RecordFingerprint Digest := ⟨sha256 r, r.length⟩

theorem map_length_of_fingerprint {run : List Bytes}
    (h : run.map (fingerprint sha256) = needle.map (fingerprint sha256)) :
    run.map length = needle.map length := by
  have := congrArg (List.map RecordFingerprint.size) h
  simpa [fingerprint, Function.comp_def] using this

theorem exists_run {l : List Bytes} (h : needle.map (fingerprint sha256) <:+ l.map (fingerprint sha256)) :
    ∃ before run, l = before ++ run ∧ run.map length = needle.map length := by
  obtain ⟨t, ht⟩ := h
  obtain ⟨before, run, hrun, -, hfp⟩ := map_eq_append_iff.mp ht.symm
  exact ⟨before, run, hrun, map_length_of_fingerprint hfp⟩

theorem collect_yields (sha256 : Bytes → Digest) (envelopeType : Bytes → Option String)
    (ignoreSessionMeta : Bool) {path : String} {data : Bytes} (hfile : disk.get path = some data) :
    ∃ needle, Yields (scanRecords sha256 envelopeType path ignoreSessionMeta collect ⟨[], none, 0⟩) disk needle ∧
      needle.fingerprints = (comparable envelopeType ignoreSessionMeta data).map (fingerprint sha256) ∧
      (comparable envelopeType ignoreSessionMeta data ≠ [] →
        needle.start = some (skipped envelopeType ignoreSessionMeta data).flatten.length ∧
        needle.stop = (skipped envelopeType ignoreSessionMeta data).flatten.length +
          (comparable envelopeType ignoreSessionMeta data).flatten.length) := by
  let I : List Bytes → Needle Digest → Prop := fun seen needle =>
    needle.fingerprints = seen.map (fingerprint sha256) ∧
      (seen = [] → needle.start = none) ∧
      (seen ≠ [] → needle.start = some (skipped envelopeType ignoreSessionMeta data).flatten.length ∧
        needle.stop = (skipped envelopeType ignoreSessionMeta data).flatten.length + seen.flatten.length)
  have hstep : ∀ seen r post needle, comparable envelopeType ignoreSessionMeta data = seen ++ r :: post →
      I seen needle → ∃ v, Yields (collect needle
        (recordInfo sha256 (skipped envelopeType ignoreSessionMeta data ++ seen) r)) disk v ∧
        v.Holds (I (seen ++ [r])) (fun _ => False) := by
    intro seen r post needle _ hI
    obtain ⟨hfp, hnone, hsome⟩ := hI
    refine ⟨_, .pure' _ _, ?_, fun h => absurd h (by simp), fun _ => ⟨?_, ?_⟩⟩
    · rw [map_append, ← hfp]
      rfl
    · by_cases hseen : seen = []
      · simp [hnone hseen, recordInfo, hseen]
      · simp [(hsome hseen).1]
    · simp [recordInfo, Nat.add_assoc]
  obtain ⟨needle, hy, hend⟩ := scanRecords_yields (b := ⟨[], none, 0⟩) hfile hstep
    ⟨rfl, fun _ => rfl, absurd rfl⟩
  obtain ⟨hfp, -, hrange⟩ := hend.resolve_right id
  exact ⟨needle, hy, hfp, hrange⟩

def Result.foundBehind (result : Result) (before needle : List Bytes) : Result :=
  { result with
    contained := true
    verifiedExact := true
    containerStartRecord := before.length
    containerEndRecord := before.length + needle.length - 1
    containerStartByte := before.flatten.length
    containerEndByte := before.flatten.length + needle.flatten.length }

def Leftmost (container needle before : List Bytes) : Prop :=
  before ++ needle <+: container ∧ ∀ other, other ++ needle <+: container → before.length ≤ other.length

theorem Leftmost.of_first {seen post before : List Bytes} {r : Bytes}
    (hnone : ¬needle <:+: seen) (hrun : seen ++ [r] = before ++ needle) : Leftmost (seen ++ r :: post) needle before := by
  have hwhole : seen ++ r :: post = before ++ needle ++ post := by
    rw [← hrun, append_assoc, singleton_append]
  refine ⟨⟨post, hwhole.symm⟩, fun other hother => ?_⟩
  obtain ⟨after, hafter⟩ := hother
  by_contra hlt
  refine hnone (infix_of_short hafter.symm ?_)
  have hlen := congrArg length hrun
  simp only [length_append, length_singleton] at hlen
  omega

variable [DecidableEq Digest]

structure Searching (sha256 : Bytes → Digest) (needle : List Bytes) (base : Result) (seen : List Bytes)
    (search : Search) : Prop where
  longest : Longest (needle.map (fingerprint sha256)) (seen.map (fingerprint sha256)) needle.length search.matched
  absent : ¬needle <:+: seen
  result : search.result = base

def FoundAt (skip container needle : List Bytes) (base : Result) (search : Search) : Prop :=
  ∃ before, Leftmost container needle before ∧ search.result = base.foundBehind (skip ++ before) needle

omit [DecidableEq Digest] in
theorem compareRun_yields {leftPath rightPath : String}
    {needleSkip run : List Bytes} (before post : List Bytes) (hl : disk.get leftPath = some needleData)
    (hr : disk.get rightPath = some containerData) (hneedle : (needleSkip ++ needle).flatten = needleData)
    (hcontainer : (before ++ run ++ post).flatten = containerData) (hsize : run.flatten.length = needle.flatten.length) :
    Yields (equalFileRanges leftPath needleSkip.flatten.length rightPath before.flatten.length
      needle.flatten.length) disk (decide (needle.flatten = run.flatten)) := by
  have hleft : (needleData.drop needleSkip.flatten.length).take needle.flatten.length = needle.flatten := by
    rw [← hneedle, ← append_nil (needleSkip ++ needle)]
    exact take_drop_flatten needleSkip needle []
  have hright : (containerData.drop before.flatten.length).take needle.flatten.length = run.flatten := by
    rw [← hcontainer, ← hsize]
    exact take_drop_flatten before run post
  have hleftEnd : needleSkip.flatten.length + needle.flatten.length ≤ needleData.length := by
    rw [← hneedle, flatten_append, length_append]
  have hrightEnd : before.flatten.length + needle.flatten.length ≤ containerData.length := by
    rw [← hcontainer, ← hsize, flatten_append, flatten_append, length_append, length_append]
    omega
  have hyields := equalFileRanges_yields _ _ _ hl hr hleftEnd hrightEnd
  rw [hleft, hright] at hyields
  exact hyields

section
variable {seen : List Bytes} {r : Bytes} {base : Result} {search : Search} (h : Searching sha256 needle base seen search)
include h

theorem Searching.advances : Longest (needle.map (fingerprint sha256)) ((seen ++ [r]).map (fingerprint sha256))
    (needle.length + 1) (advance (needle.map (fingerprint sha256)) (borderTable (needle.map (fingerprint sha256)))
      (fingerprint sha256 r) search.matched) := by
  have hlen : (needle.map (fingerprint sha256)).length = needle.length := length_map _
  obtain ⟨htable, htableLen⟩ := borderTable_ok (needle.map (fingerprint sha256))
  rw [map_append, map_singleton]
  exact advance_longest (fingerprint sha256 r) htable
    (by rw [htableLen, hlen]; exact le_of_lt h.longest.below) (le_of_eq hlen.symm) h.longest

omit [DecidableEq Digest] in
theorem Searching.absent_concat (hs : ¬needle <:+ seen ++ [r]) : ¬needle <:+: seen ++ [r] :=
  fun hin => (infix_concat_iff.mp hin).elim hs h.absent

end

theorem searchRecord_yields {needleSkip skip seen post : List Bytes} {r : Bytes} {base : Result} {search : Search}
    (hneedleFile : disk.get base.containedPath = some needleData)
    (hcontainerFile : disk.get base.containerPath = some containerData)
    (hneedle : (needleSkip ++ needle).flatten = needleData) (hne : needle ≠ [])
    (hcontainer : (skip ++ (seen ++ r :: post)).flatten = containerData)
    (hbytes : base.containedBytes = needle.flatten.length) (h : Searching sha256 needle base seen search) :
    ∃ v, Yields (searchRecord (needle.map (fingerprint sha256)) (buildPrefixTable (needle.map (fingerprint sha256)))
        needleSkip.flatten.length search (recordInfo sha256 (skip ++ seen) r)) disk v ∧
      v.Holds (Searching sha256 needle base (seen ++ [r])) (FoundAt skip (seen ++ r :: post) needle base) := by
  have hlen : (needle.map (fingerprint sha256)).length = needle.length := length_map _
  have hnext := h.advances (r := r)
  unfold searchRecord buildPrefixTable
  rw [show (recordInfo sha256 (skip ++ seen) r).fingerprint = fingerprint sha256 r from rfl, hlen]
  generalize advance (needle.map (fingerprint sha256)) (borderTable (needle.map (fingerprint sha256)))
    (fingerprint sha256 r) search.matched = k at hnext ⊢
  by_cases hk : k = needle.length
  · subst hk
    have hends := hnext.ends
    rw [← hlen, take_length] at hends
    obtain ⟨before, run, hrun, hlengths⟩ := exists_run hends
    have hsize : run.flatten.length = needle.flatten.length := by
      rw [length_flatten, length_flatten, hlengths]
    have hwhole : skip ++ (seen ++ r :: post) = (skip ++ before) ++ run ++ post := by
      rw [append_assoc skip, ← hrun, append_assoc, append_assoc, singleton_append]
    have hstop : (recordInfo sha256 (skip ++ seen) r).stop =
        (skip ++ before).flatten.length + needle.flatten.length := by
      have hbytes := congrArg (fun l : List Bytes => l.flatten.length) hrun
      simp only [flatten_append, length_append, flatten_singleton] at hbytes
      simp only [recordInfo, flatten_append, length_append]
      omega
    have hstart : (recordInfo sha256 (skip ++ seen) r).stop - search.result.containedBytes =
        (skip ++ before).flatten.length := by
      rw [hstop, h.result, hbytes, Nat.add_sub_cancel]
    have hcompare := compareRun_yields (skip ++ before) post hneedleFile hcontainerFile hneedle
      (by rw [← hwhole]; exact hcontainer) hsize
    rw [if_neg (by simp), hstart, h.result, hbytes]
    by_cases hsame : needle.flatten = run.flatten
    · have hrunEq : run = needle := eq_iff_flatten_eq.mpr ⟨hsame.symm, hlengths⟩
      rw [decide_eq_true hsame] at hcompare
      refine ⟨_, .bind' hcompare (.pure' _ _), before, ?_, ?_⟩
      · rw [hrunEq] at hrun
        exact Leftmost.of_first h.absent hrun
      · have hcount := congrArg length hrun
        simp only [length_append, length_singleton, hrunEq] at hcount
        simp only [Result.foundBehind, recordInfo, length_append]
        congr 1 <;> omega
    · rw [decide_eq_false hsame] at hcompare
      refine ⟨_, .bind' hcompare (.pure' _ _), ⟨?_, h.absent_concat fun hs => hsame ?_, rfl⟩⟩
      · have hborder := Longest.border (by simpa using hne) hends
        rw [hlen] at hborder
        exact hborder
      · -- the last records seen are the run, whose bytes differ
        have hcount : needle.length = run.length := by
          simpa using (congrArg length hlengths).symm
        have hlast : needle <:+ run :=
          suffix_of_suffix_length_le hs ⟨before, hrun.symm⟩ (le_of_eq hcount)
        rw [hlast.eq_of_length hcount]
  · rw [if_pos hk]
    have hbelow := hnext.below
    refine ⟨_, .pure' _ _, ⟨⟨?_, hnext.ends, fun j hj => hnext.longest j (Nat.lt_succ_of_lt hj)⟩,
      h.absent_concat fun hs => ?_, h.result⟩⟩
    · show k < needle.length
      omega
    · -- an occurrence that ends with this record shows as a full match of fingerprints
      have hmatch := hs.map (fingerprint sha256)
      rw [← take_length (l := needle.map (fingerprint sha256)), hlen] at hmatch
      have := hnext.longest needle.length (Nat.lt_succ_self _) hmatch
      omega

theorem check_yields (sha256 : Bytes → Digest) {contained container : Input} {options : Options}
    (hcontained : contained.path ≠ "") (hcontainer : container.path ≠ "")
    (hneedleFile : disk.get contained.path = some needleData)
    (hcontainerFile : disk.get container.path = some containerData)
    (hne : comparable envelopeType options.ignoreSessionMeta needleData ≠ []) :
    let needle := comparable envelopeType options.ignoreSessionMeta needleData
    let texts := comparable envelopeType options.ignoreSessionMeta containerData
    let base := newResult contained container options needle.length needle.flatten.length
    ∃ result, Yields (check sha256 envelopeType contained container options) disk result ∧
      (result = base ∧ ¬needle <:+: texts ∨ ∃ before, Leftmost texts needle before ∧
        result = base.foundBehind (skipped envelopeType options.ignoreSessionMeta containerData ++ before) needle) := by
  intro needle texts base
  obtain ⟨collected, hcollect, hfp, hrange⟩ :=
    collect_yields sha256 envelopeType options.ignoreSessionMeta hneedleFile
  obtain ⟨hstart, hstop⟩ := hrange hne
  have hneedle : (skipped envelopeType options.ignoreSessionMeta needleData ++ needle).flatten = needleData := by
    rw [skipped_append_comparable, records, cutAfter_flatten]
  have hfps : collected.fingerprints = needle.map (fingerprint sha256) := hfp
  have hbase : newResult contained container options collected.fingerprints.length
      (collected.stop - collected.start.getD 0) = base := by
    rw [hfps, hstart, hstop, getD_some, Nat.add_sub_cancel_left, length_map]
  have hbegin : Searching sha256 needle base [] ⟨0, base⟩ := by
    refine ⟨⟨length_pos_of_ne_nil hne, nil_suffix, fun j hj hjs => ?_⟩, ?_, rfl⟩
    · have hnil := congrArg length (suffix_nil.mp hjs)
      simp only [length_take, length_map, length_nil] at hnil
      omega
    · intro hin
      exact hne (infix_nil.mp hin)
  have hstep : ∀ seen r post search, texts = seen ++ r :: post → Searching sha256 needle base seen search →
      ∃ v, Yields (searchRecord (needle.map (fingerprint sha256))
          (buildPrefixTable (needle.map (fingerprint sha256)))
          (skipped envelopeType options.ignoreSessionMeta needleData).flatten.length search
          (recordInfo sha256 (skipped envelopeType options.ignoreSessionMeta containerData ++ seen) r)) disk v ∧
        v.Holds (Searching sha256 needle base (seen ++ [r]))
          (FoundAt (skipped envelopeType options.ignoreSessionMeta containerData) texts needle base) := by
    intro seen r post search hrecords hsearch
    rw [hrecords]
    refine searchRecord_yields hneedleFile hcontainerFile hneedle hne ?_ rfl hsearch
    rw [← hrecords, skipped_append_comparable, records, cutAfter_flatten]
  obtain ⟨search, hscan, hend⟩ := scanRecords_yields hcontainerFile hstep hbegin
  refine ⟨search.result, ?_, ?_⟩
  · unfold check
    refine .bind' (.ensure' _ _ (by simp [hcontained, hcontainer])) ?_
    refine .bind' (wrapped_yields hcollect) ?_
    refine .bind' (.ensure' _ _ (by rw [hfps]; simpa using hne)) ?_
    simp only [hbase]
    rw [hfps, hstart, getD_some]
    exact .bind' (wrapped_yields hscan) (.pure' _ _)
  · rcases hend with hsearch | ⟨before, hleft, hresult⟩
    · exact .inl ⟨hsearch.result, hsearch.absent⟩
    · exact .inr ⟨before, hleft, hresult⟩

/-- `check` answers exactly: for every hash, and whatever reads fail on the way, a
    call that returns says `contained` if and only if the comparable records of the
    one rollout are a run of those of the other, and then names the leftmost run by its
    records and its bytes. Without a failing read it returns. -/
theorem check_exact (sha256 : Bytes → Digest) (envelopeType : Bytes → Option String) (disk : Disk)
    (contained container : Input) (options : Options) (needleData containerData : Bytes)
    (hcontained : contained.path ≠ "") (hcontainer : container.path ≠ "")
    (hneedleFile : disk.get contained.path = some needleData)
    (hcontainerFile : disk.get container.path = some containerData)
    (hne : comparable envelopeType options.ignoreSessionMeta needleData ≠ []) :
    ∃ result, Yields (check sha256 envelopeType contained container options) disk result ∧
      (result.contained = true ↔ comparable envelopeType options.ignoreSessionMeta needleData <:+:
        comparable envelopeType options.ignoreSessionMeta containerData) ∧
      (result.contained = true → ∃ before,
        Leftmost (comparable envelopeType options.ignoreSessionMeta containerData)
          (comparable envelopeType options.ignoreSessionMeta needleData) before ∧
        (let all := skipped envelopeType options.ignoreSessionMeta containerData ++ before
         let needle := comparable envelopeType options.ignoreSessionMeta needleData
         result.containerStartRecord = all.length ∧
         result.containerEndRecord + 1 = all.length + needle.length ∧
         result.containerStartByte = all.flatten.length ∧
         result.containerEndByte = all.flatten.length + needle.flatten.length)) := by
  obtain ⟨result, hyields, hend⟩ := check_yields sha256 hcontained hcontainer hneedleFile hcontainerFile hne
  refine ⟨result, hyields, ?_, ?_⟩
  · rcases hend with ⟨hbase, habsent⟩ | ⟨before, hleft, hfound⟩
    · rw [hbase]
      exact ⟨nofun, fun h => absurd h habsent⟩
    · rw [hfound]
      refine ⟨fun _ => ?_, fun _ => rfl⟩
      exact (suffix_append before _).isInfix.trans hleft.1.isInfix
  · intro hcont
    rcases hend with ⟨hbase, -⟩ | ⟨before, hleft, hfound⟩
    · rw [hbase] at hcont
      cases hcont
    · refine ⟨before, hleft, ?_⟩
      rw [hfound]
      have hpos := length_pos_of_ne_nil hne
      refine ⟨rfl, ?_, rfl, rfl⟩
      simp only [Result.foundBehind]
      omega

end

/-- Under a hash that gives every record one digest, the records `a` and `b` have the
    same fingerprint; the needle `b` is found behind `a` all the same. -/
theorem check_exact_colliding :
    let disk : Disk := (Files.empty.set "n" [98, 10]).set "c" [97, 10, 98, 10]
    ∃ result, Yields (check (fun _ => ()) (fun _ => none) ⟨"", "n"⟩ ⟨"", "c"⟩ ⟨true⟩) disk result ∧
      result.contained = true := by
  intro disk
  obtain ⟨result, hyields, hiff, -⟩ := check_exact (fun _ => ()) (fun _ => none) disk ⟨"", "n"⟩ ⟨"", "c"⟩ ⟨true⟩
    [98, 10] [97, 10, 98, 10] (by decide) (by decide) (by decide) (by decide) (by decide)
  exact ⟨result, hyields, hiff.mpr (by decide)⟩

end CodexFold.Contain
