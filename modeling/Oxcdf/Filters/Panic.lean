import Oxcdf.Filters.Checked
import Oxcdf.Filters.RoundTrip
import Oxcdf.Message.Storage

/-! When decoding a chunk panics.

A checked build subtracts what a Blosc container has decoded to so far from what its
header says, and shifts a mask bit by the position of each filter. Any build sets aside
what the caller says a chunk decodes to.
-/

set_option autoImplicit false

namespace Oxcdf.Filters

open Foundation Foundation.Buffer

section Blosclz

theorem matchLength_safe (data : Bytes) (length : Nat) : ¬ (matchLength data length).Panics := by
  fun_induction matchLength data length with
  | case1 => exact Outcome.not_panics_error _
  | case2 extra data length full ih => exact ih
  | case3 => exact Outcome.not_panics_ok _

/-- What a copy does once its length is known. -/
def finishCopy (high length : Nat) (rest out : Bytes) : Code (Bytes × Bytes) :=
  match rest with
  | [] => .error (.malformed "blosclz match offset runs past the block")
  | low :: rest => do
    let distance := high * 2 ^ 8 + low.toNat
    let (distance, rest) ←
      if distance = 0x1fff then
        match rest with
        | high :: low :: rest => .ok (distance + (high.toNat * 2 ^ 8 + low.toNat), rest)
        | _ => .error (.malformed "blosclz extended match offset runs past the block")
      else .ok (distance, rest)
    if out.length < distance + 1 then
      .error (.malformed "blosclz match points before the start of the block")
    else .ok (rest, copyMatch (out.length - (distance + 1)) length 0 out)

theorem blosclzToken_of_copy {first : Bool} {token : Nat} (copies : ¬ (first = true ∨ token / 2 ^ 5 = 0))
    (rest out : Bytes) :
    blosclzToken first token rest out =
      (if token / 2 ^ 5 = 7 then matchLength rest 7 else .ok (token / 2 ^ 5, rest)) >>= fun found =>
        finishCopy (token % 2 ^ 5) (found.1 + 2) found.2 out := by
  rw [blosclzToken, if_neg copies]
  split
  · cases matchLength rest 7 <;> rfl
  · rfl

/-- Behind the length of a match, only checks of what is left of the stream. -/
theorem finishCopy_safe (high length : Nat) (rest out : Bytes) : ¬ (finishCopy high length rest out).Panics := by
  have checked (distance : Nat) (rest : Bytes) : ¬ (if out.length < distance + 1 then
      .error (.malformed "blosclz match points before the start of the block")
      else .ok (rest, copyMatch (out.length - (distance + 1)) length 0 out) : Code (Bytes × Bytes)).Panics := by
    split <;> simp
  unfold finishCopy
  cases rest with
  | nil => exact Outcome.not_panics_error _
  | cons low rest =>
    dsimp only
    split
    · split
      · exact checked _ _
      · exact Outcome.not_panics_error _
    · exact checked _ _

theorem blosclzToken_safe (first : Bool) (token : Nat) (rest out : Bytes) :
    ¬ (blosclzToken first token rest out).Panics := by
  by_cases literal : first = true ∨ token / 2 ^ 5 = 0
  · rw [blosclzToken, if_pos literal]
    dsimp only
    split
    · exact Outcome.not_panics_error _
    · exact Outcome.not_panics_ok _
  · rw [blosclzToken_of_copy literal]
    refine Outcome.not_panics_bind ?_ fun found => finishCopy_safe _ _ _ _
    split
    · exact matchLength_safe _ _
    · exact Outcome.not_panics_ok _

theorem blosclzTokens_safe (budget : Nat) (first : Bool) (data out : Bytes) :
    ¬ (blosclzTokens budget first data out).Panics := by
  induction budget generalizing first data out with
  | zero => exact Outcome.not_panics_ok out
  | succ budget ih =>
    cases data with
    | nil => exact Outcome.not_panics_ok out
    | cons token rest =>
      rw [blosclzTokens, Outcome.panics_bind]
      rintro (here | ⟨after, -, later⟩)
      · exact blosclzToken_safe _ _ _ _ here
      · exact ih _ _ _ later

theorem withCapacity_panics {len : Nat} : (withCapacity len).Panics ↔ isizeMax < len := by
  unfold withCapacity
  split
  · next small => simp [Nat.not_lt.mpr small]
  · next large => simp [Nat.lt_of_not_le large]

theorem unblosclz_panics {data : Bytes} {expectedLen : Nat} :
    (unblosclz data expectedLen).Panics ↔ isizeMax < expectedLen := by
  rw [unblosclz, Outcome.panics_bind, withCapacity_panics]
  constructor
  · rintro (large | ⟨-, -, tokens⟩)
    · exact large
    · exact absurd tokens (blosclzTokens_safe _ _ _ _)
  · exact .inl

end Blosclz

section Blosc

variable {build : Build} {codecs : Codecs} {data : Bytes} {codec nbytes blocksize : Nat}

theorem inflate_panics {expectedLen : Nat} : (inflate codecs data expectedLen).Panics ↔
    isizeMax < expectedLen := by
  rw [inflate, Outcome.panics_bind, withCapacity_panics]
  constructor
  · rintro (large | ⟨-, -, decoded⟩)
    · exact large
    · cases same : codecs.zlib data <;> simp [same] at decoded
  · exact .inl

theorem unzstd_panics {expectedLen : Nat} : (unzstd codecs data expectedLen).Panics ↔
    isizeMax < expectedLen := by
  rw [unzstd, Outcome.panics_bind, withCapacity_panics]
  constructor
  · rintro (large | ⟨-, -, decoded⟩)
    · exact large
    · cases same : codecs.zstd data <;> simp [same] at decoded
  · exact .inl

theorem unbloscBlock_safe {want : Nat} (small : want ≤ isizeMax) (body : Bytes) :
    ¬ (unbloscBlock codecs codec body want).Panics := by
  have room : ¬ isizeMax < want := Nat.not_lt.mpr small
  unfold unbloscBlock
  split
  · rwa [unblosclz_panics]
  · cases codecs.lz4 body want <;> simp
  · cases codecs.lz4 body want <;> simp
  · exact Outcome.not_panics_error _
  · rwa [inflate_panics]
  · rwa [unzstd_panics]
  · exact Outcome.not_panics_error _

/-- The body of a block whose frame lies inside the chunk. -/
def bodyAt (data : Bytes) (block : Nat) : Option Bytes :=
  let start := u32At data (16 + block * 4)
  if start + 4 ≤ data.length ∧ start + 4 + u32At data start ≤ data.length then
    some (slice data (start + 4) (u32At data start))
  else none

/-- The blocks come to one that is begun when more than all bytes are there. -/
inductive Overruns (codecs : Codecs) (data : Bytes) (codec nbytes blocksize : Nat) : List Nat → Nat → Prop
  | here {block len : Nat} {blocks : List Nat} {body : Bytes} (frame : bodyAt data block = some body)
      (past : nbytes < len) : Overruns codecs data codec nbytes blocksize (block :: blocks) len
  | later {block len : Nat} {blocks : List Nat} {body out : Bytes} (frame : bodyAt data block = some body)
      (room : len ≤ nbytes) (decoded : unbloscBlock codecs codec body (min blocksize (nbytes - len)) = .ok out)
      (rest : Overruns codecs data codec nbytes blocksize blocks (len + out.length)) :
      Overruns codecs data codec nbytes blocksize (block :: blocks) len

theorem unbloscBlocks_cons {block : Nat} (inTable : 16 + block * 4 + 4 ≤ data.length) (blocks : List Nat)
    (out : Bytes) :
    (∃ reason, bodyAt data block = none ∧
      unbloscBlocks build codecs data codec nbytes blocksize (block :: blocks) out = .error reason) ∨
    ∃ body, bodyAt data block = some body ∧
      unbloscBlocks build codecs data codec nbytes blocksize (block :: blocks) out =
        build.sub nbytes out.length >>= fun left =>
          unbloscBlock codecs codec body (min blocksize left) >>= fun decoded =>
            unbloscBlocks build codecs data codec nbytes blocksize blocks (out ++ decoded) := by
  rw [unbloscBlocks, readU32_of_le inTable, Outcome.ok_bind]
  split
  · next past =>
    left
    exact ⟨_, if_neg fun framed => by omega, rfl⟩
  · next inside =>
    rw [readU32_of_le (Nat.not_lt.mp inside), Outcome.ok_bind]
    dsimp only
    split
    · next past =>
      left
      exact ⟨_, if_neg fun framed => by omega, rfl⟩
    · next whole =>
      right
      rw [range_of_le data (Nat.not_lt.mp whole), Outcome.ok_bind]
      exact ⟨_, if_pos (by omega), rfl⟩

theorem unbloscBlocks_panics (small : blocksize ≤ isizeMax) {blocks : List Nat}
    (inTable : ∀ block ∈ blocks, 16 + block * 4 + 4 ≤ data.length) (out : Bytes) :
    (unbloscBlocks build codecs data codec nbytes blocksize blocks out).Panics ↔
      build = .debug ∧ Overruns codecs data codec nbytes blocksize blocks out.length := by
  induction blocks generalizing out with
  | nil =>
    constructor
    · exact fun panics => absurd panics (Outcome.not_panics_ok out)
    · rintro ⟨-, overruns⟩
      cases overruns
  | cons block blocks ih =>
    have want (left : Nat) : min blocksize left ≤ isizeMax := (Nat.min_le_left _ _).trans small
    obtain ⟨here, others⟩ := List.forall_mem_cons.mp inTable
    rcases @unbloscBlocks_cons build codecs data codec nbytes blocksize block here blocks out with
      ⟨reason, outside, fails⟩ | ⟨body, frame, step⟩
    · rw [fails]
      constructor
      · exact fun panics => absurd panics (Outcome.not_panics_error reason)
      · rintro ⟨-, overruns⟩
        cases overruns with
        | here frame => simp [outside] at frame
        | later frame => simp [outside] at frame
    · rw [step, Outcome.panics_bind, Build.sub_panics]
      constructor
      -- The output is longer than the container says, or the blocks behind this one overrun.
      · rintro (⟨debug, past⟩ | ⟨left, subtracted, later⟩)
        · exact ⟨debug, .here frame past⟩
        · rcases Outcome.panics_bind.mp later with decoding | ⟨decoded, done, rest⟩
          · exact absurd decoding (unbloscBlock_safe (want left) body)
          · obtain ⟨debug, overruns⟩ := (ih others _).mp rest
            subst debug
            rw [List.length_append] at overruns
            by_cases room : out.length ≤ nbytes
            · rw [Build.sub_of_le _ room] at subtracted
              cases subtracted
              exact ⟨rfl, .later frame room done overruns⟩
            · simp [Build.sub, room] at subtracted
      · rintro ⟨rfl, overruns⟩
        cases overruns with
        | here _ past => exact .inl ⟨rfl, past⟩
        | later same room decoded rest =>
          rw [frame] at same
          cases same
          right
          refine ⟨_, Build.sub_of_le _ room, Outcome.panics_bind.mpr (.inr ⟨_, decoded, ?_⟩)⟩
          rw [ih others, List.length_append]
          exact ⟨rfl, rest⟩

/-- The header of a container passes the checks that come before its blocks. -/
structure Accepted (data : Bytes) : Prop where
  header : 16 ≤ data.length
  version : (data.getD 0 0).toNat = 2
  held : u32At data 12 ≤ data.length
  blocksize : u32At data 8 ≠ 0
  table : 16 + (u32At data 4 + u32At data 8 - 1) / u32At data 8 * 4 ≤ data.length

/-- Some block of the container is begun when those before it have decoded to more than the
header says all of them do. -/
def Overfull (codecs : Codecs) (data : Bytes) : Prop :=
  Accepted data ∧ Overruns codecs data ((data.getD 2 0).toNat / 2 ^ 5) (u32At data 4) (u32At data 8)
    (List.range ((u32At data 4 + u32At data 8 - 1) / u32At data 8)) 0

theorem u32At_lt (data : Bytes) (at_ : Nat) : u32At data at_ < 2 ^ 32 := by
  have word := Format.ofLittleEndian_lt (slice data at_ 4)
  have short : (slice data at_ 4).length ≤ 4 := List.length_take_le _ _
  exact lt_of_lt_of_le word (Nat.pow_le_pow_right (by decide) short)

/-- A container makes decoding panic exactly in a checked build when it is overfull. -/
theorem unblosc_panics : (unblosc build codecs data).Panics ↔ build = .debug ∧ Overfull codecs data := by
  have small : u32At data 8 ≤ isizeMax := (Nat.le_of_lt (u32At_lt data 8)).trans (by decide)
  by_cases accepted : Accepted data
  · obtain ⟨header, version, held, blocksize, table⟩ := accepted
    have inTable : ∀ block ∈ List.range ((u32At data 4 + u32At data 8 - 1) / u32At data 8),
        16 + block * 4 + 4 ≤ data.length := by
      intro block member
      have before := List.mem_range.mp member
      omega
    obtain ⟨first, third, fourth, readBytes, readBlocksize, readHeld⟩ := header_reads header
    unfold unblosc
    rw [if_neg (Nat.not_lt.mpr header), first, Outcome.ok_bind, if_neg (not_not_intro version), third, Outcome.ok_bind,
      fourth, Outcome.ok_bind, readBytes, Outcome.ok_bind, readBlocksize, Outcome.ok_bind, readHeld, Outcome.ok_bind,
      if_neg (Nat.not_lt.mpr held), if_neg blocksize]
    dsimp only
    rw [if_neg (Nat.not_lt.mpr table), Outcome.panics_bind, unbloscBlocks_panics small inTable]
    constructor
    · rintro (⟨debug, overruns⟩ | ⟨out, -, later⟩)
      · exact ⟨debug, ⟨header, version, held, blocksize, table⟩, overruns⟩
      · split at later
        · exact absurd later (Outcome.not_panics_ok _)
        · split at later <;> exact absurd later (Outcome.not_panics_ok _)
    · rintro ⟨debug, -, overruns⟩
      exact .inl ⟨debug, overruns⟩
  · have refused : ∃ reason, unblosc build codecs data = .error reason := by
      unfold unblosc
      split
      · exact ⟨_, rfl⟩
      · next header =>
        obtain ⟨first, third, fourth, readBytes, readBlocksize, readHeld⟩ := header_reads (Nat.not_lt.mp header)
        rw [first, Outcome.ok_bind]
        split
        · exact ⟨_, rfl⟩
        · next version =>
          rw [third, Outcome.ok_bind, fourth, Outcome.ok_bind, readBytes, Outcome.ok_bind, readBlocksize,
            Outcome.ok_bind, readHeld, Outcome.ok_bind]
          dsimp only
          split
          · exact ⟨_, rfl⟩
          · next held =>
            split
            · exact ⟨_, rfl⟩
            · next blocksize =>
              split
              · exact ⟨_, rfl⟩
              · next table =>
                exact absurd ⟨Nat.not_lt.mp header, not_not.mp version, Nat.not_lt.mp held, blocksize,
                  Nat.not_lt.mp table⟩ accepted
    obtain ⟨reason, fails⟩ := refused
    rw [fails]
    constructor
    · exact fun panics => absurd panics (Outcome.not_panics_error reason)
    · rintro ⟨-, valid, -⟩
      exact absurd valid accepted

end Blosc

section Pipeline

variable {build : Build} {codecs : Codecs} {mask expectedLen : Nat}

/-- Undoing this filter on these bytes does not panic. -/
structure Harmless (build : Build) (codecs : Codecs) (expectedLen : Nat) (filter : Filter) (data : Bytes) :
    Prop where
  capacity : Allocates filter → expectedLen ≤ isizeMax
  container : filter.id = bloscId → build = .debug → ¬ Overfull codecs data

/-- On the way through some filters, one of them is undone on some bytes. -/
inductive Undoes (build : Build) (codecs : Codecs) (mask expectedLen : Nat) (filter : Filter) (data : Bytes) :
    List (Filter × Nat) → Bytes → Prop
  | here {index : Nat} {filters : List (Filter × Nat)} (applied : mask.testBit (index % 32) = false) :
      Undoes build codecs mask expectedLen filter data ((filter, index) :: filters) data
  | skipped {other : Filter} {index : Nat} {filters : List (Filter × Nat)} {buf : Bytes}
      (bit : mask.testBit (index % 32) = true)
      (rest : Undoes build codecs mask expectedLen filter data filters buf) :
      Undoes build codecs mask expectedLen filter data ((other, index) :: filters) buf
  | later {other : Filter} {index : Nat} {filters : List (Filter × Nat)} {buf out : Bytes}
      (applied : mask.testBit (index % 32) = false)
      (decoded : decodeOne build codecs other buf expectedLen = .ok out)
      (rest : Undoes build codecs mask expectedLen filter data filters out) :
      Undoes build codecs mask expectedLen filter data ((other, index) :: filters) buf

theorem verifyAndStripFletcher32_safe (data : Bytes) : ¬ (verifyAndStripFletcher32 data).Panics := by
  unfold verifyAndStripFletcher32
  split
  · exact Outcome.not_panics_error _
  · dsimp only
    split
    · exact Outcome.not_panics_error _
    · exact Outcome.not_panics_ok _

theorem decodeOne_panics {filter : Filter} {data : Bytes} :
    (decodeOne build codecs filter data expectedLen).Panics ↔
      ¬ Harmless build codecs expectedLen filter data := by
  have harmless : Harmless build codecs expectedLen filter data ↔
      (Allocates filter → expectedLen ≤ isizeMax) ∧
        (filter.id = bloscId → build = .debug → ¬ Overfull codecs data) :=
    ⟨fun held => ⟨held.capacity, held.container⟩, fun ⟨capacity, container⟩ => ⟨capacity, container⟩⟩
  rw [harmless]
  unfold decodeOne
  split
  · next id => simp [inflate_panics, Allocates, id, deflateId, bloscId]
  · next notDeflate =>
    split
    · next id => simp [Allocates, id, shuffleId, deflateId, zstdId, bloscId]
    · split
      · next id =>
        simp [verifyAndStripFletcher32_safe, Allocates, id, fletcher32Id, deflateId, zstdId, bloscId]
      · split
        · next id => simp [unzstd_panics, Allocates, id, zstdId, bloscId]
        · next notZstd =>
          split
          · next id => simp [unblosc_panics, Allocates, id, deflateId, zstdId, bloscId]
          · next notBlosc => simp [Allocates, notDeflate, notZstd, notBlosc]

theorem maskBit_eq {index : Nat} (held : build = .debug → index < 32) :
    maskBit build index = .ok (index % 32) := by
  unfold maskBit
  split
  · next small => rw [Nat.mod_eq_of_lt small]
  · next large =>
    cases build with
    | debug => exact absurd (held rfl) large
    | release => rfl

/-- With a mask bit for every filter, what panics is one of the filters that are undone. -/
theorem decodeEach_panics {filters : List (Filter × Nat)}
    (held : build = .debug → ∀ each ∈ filters, each.2 < 32)
    (buf : Bytes) : (decodeEach build codecs mask expectedLen filters buf).Panics ↔
      ∃ filter data, Undoes build codecs mask expectedLen filter data filters buf ∧
        ¬ Harmless build codecs expectedLen filter data := by
  induction filters generalizing buf with
  | nil =>
    constructor
    · exact fun panics => absurd panics (Outcome.not_panics_ok buf)
    · rintro ⟨filter, data, undoes, -⟩
      cases undoes
  | cons each filters ih =>
    obtain ⟨other, index⟩ := each
    have rest := ih fun debug each member => held debug each (List.mem_cons_of_mem _ member)
    rw [decodeEach, maskBit_eq fun debug => held debug _ List.mem_cons_self, Outcome.ok_bind]
    split
    · next bit =>
      rw [rest]
      constructor
      · rintro ⟨filter, data, undoes, harmful⟩
        exact ⟨filter, data, .skipped bit undoes, harmful⟩
      · rintro ⟨filter, data, undoes, harmful⟩
        cases undoes with
        | here applied => simp [applied] at bit
        | skipped _ undoes => exact ⟨filter, data, undoes, harmful⟩
        | later applied => simp [applied] at bit
    · next clear =>
      have applied := Bool.eq_false_of_not_eq_true clear
      rw [Outcome.panics_bind, decodeOne_panics]
      constructor
      · rintro (harmful | ⟨out, decoded, panics⟩)
        · exact ⟨other, buf, .here applied, harmful⟩
        · obtain ⟨filter, data, undoes, harmful⟩ := (rest out).mp panics
          exact ⟨filter, data, .later applied decoded undoes, harmful⟩
      · rintro ⟨filter, data, undoes, harmful⟩
        cases undoes with
        | here _ => exact .inl harmful
        | skipped bit => exact absurd bit clear
        | later _ decoded undoes => exact .inr ⟨_, decoded, (rest _).mpr ⟨filter, data, undoes, harmful⟩⟩

theorem decodeChunk_panics {pipeline : FilterPipeline} {data : Bytes} :
    ¬ (decodeChunk build codecs pipeline mask data expectedLen).Panics ↔
      (build = .debug → pipeline.filters.length ≤ 32) ∧
        ∀ filter buf, Undoes build codecs mask expectedLen filter buf pipeline.filters.zipIdx.reverse data →
          Harmless build codecs expectedLen filter buf := by
  unfold decodeChunk
  by_cases held : build = .debug → pipeline.filters.length ≤ 32
  · rw [decodeEach_panics fun debug each member => ?_]
    · simpa using fun _ => held
    · have bound := (List.mem_zipIdx' (List.mem_reverse.mp member)).1
      have few := held debug
      omega
  · refine ⟨fun safe => absurd ?_ safe, fun ⟨few, _⟩ => absurd few held⟩
    obtain ⟨debug, many⟩ := Classical.not_imp.mp held
    subst debug
    -- The last filter is undone first, and has no bit in the mask.
    obtain ⟨filters, last, split⟩ := (List.eq_nil_or_concat pipeline.filters).resolve_left fun none => by
      rw [none] at many
      exact many (Nat.zero_le 32)
    rw [split, List.length_concat] at many
    have beyond : maskBit .debug filters.length = .panic .overflow := if_neg (by omega)
    rw [split, List.concat_eq_append, List.zipIdx_append, List.reverse_append]
    simp only [List.zipIdx_cons, List.zipIdx_nil, List.reverse_singleton, List.singleton_append, decodeEach,
      Nat.zero_add, beyond]
    exact Outcome.panics_panic _

end Pipeline

section Everywhere

variable (build : Build) (codecs : Codecs)

/-- When decoding panics: a chunk when a checked build has more than 32 filters to look up in
the mask, or when a filter that is undone asks for more than an allocation may hold or meets
an overfull container. The loops never read outside a byte string. -/
theorem decoding_panics_iff :
    (∀ (pipeline : FilterPipeline) (mask : Nat) (data : Bytes) (expectedLen : Nat),
      ¬ (decodeChunk build codecs pipeline mask data expectedLen).Panics ↔
        (build = .debug → pipeline.filters.length ≤ 32) ∧
          ∀ filter buf, Undoes build codecs mask expectedLen filter buf pipeline.filters.zipIdx.reverse data →
            Harmless build codecs expectedLen filter buf) ∧
    (∀ data : Bytes, ¬ (unblosc build codecs data).Panics ↔ (build = .debug → ¬ Overfull codecs data)) ∧
    (∀ (data : Bytes) (expectedLen : Nat), ¬ (unblosclz data expectedLen).Panics ↔ expectedLen ≤ isizeMax) ∧
    (∀ (out : Bytes) (distance length : Nat), distance + 1 ≤ out.length →
      copyMatchChecked (out.length - (distance + 1)) length 0 out =
        .ok (copyMatch (out.length - (distance + 1)) length 0 out)) ∧
    (∀ (data : Bytes) (elementSize : Nat),
      unshuffleChecked data elementSize = .ok (unshuffle data elementSize)) ∧
    ∀ (data : Bytes) (typesize : Nat), ¬ (unbitshuffleChecked build data typesize).Panics ↔
      (build = .debug → Bitshuffles data typesize →
        typesize * 8 < wordSize ∧ data.length * 8 ≤ wordSize) := by
  refine ⟨fun pipeline mask data expectedLen => decodeChunk_panics, fun data => ?_, fun data expectedLen => ?_,
    fun out distance length inside => ?_, unshuffleChecked_eq, fun data typesize => ?_⟩
  · rw [unblosc_panics, not_and]
  · rw [unblosclz_panics, Nat.not_lt]
  · exact copyMatchChecked_eq length 0 (by omega)
  · rw [unbitshuffleChecked_panics, not_and, not_and, not_not]

/-- Two blocks of one byte are declared, and the first decodes to three. -/
def overfullContainer : Bytes :=
  [2, 1, 0, 1, 2, 0, 0, 0, 1, 0, 0, 0, 36, 0, 0, 0, 24, 0, 0, 0, 32, 0, 0, 0,
    4, 0, 0, 0, 2, 7, 7, 7, 0, 0, 0, 0]

theorem decoding_panics_overfull :
    FilterPipeline.parse [2, 1, 1, 0x7d, 0, 0, 0, 0, 0, 0] = .ok ⟨[⟨bloscId, "", 0, []⟩]⟩ ∧
      decodeChunk .debug Codecs.refusing ⟨[⟨bloscId, "", 0, []⟩]⟩ 0 overfullContainer 2 = .panic .overflow := by
  decide

end Everywhere

end Oxcdf.Filters
