import Oxcdf.Concurrent.Arrays
import Oxcdf.Concurrent.Strings
import Oxcdf.Extent
import Oxcdf.Netcdf.Values
import Oxcdf.Netcdf.Views

/-! Readers of the variables of one netCDF file.

Each reader asks for a selection of a variable, as numbers of some type or as strings.
However the readers are interleaved, each gets what the variable holds.
-/

set_option autoImplicit false

namespace Oxcdf

open Foundation Foundation.Buffer

inductive Wanted where
  | values (element : Element)
  | value (element : Element)
  | strings
  | string
  | rawValues

def Wanted.Result : Wanted → Type
  | .values element => List element.Value
  | .value element => element.Value
  | .strings => List String
  | .string => String
  | .rawValues => Bytes

/-- A variable of a netCDF file over HDF5, with the position of the dataset that it is bound to. -/
structure Handle (hdf5 : Hdf5File) (netcdf : NetcdfFile) where
  var : Variable
  listed : var ∈ netcdf.vars
  position : Fin hdf5.datasets.length
  bound : var.store = .hdf5 (hdf5.datasets.get position)

structure VariableRead (hdf5 : Hdf5File) (netcdf : NetcdfFile) where
  handle : Handle hdf5 netcdf
  selection : Selection
  wanted : Wanted

def Hdf5File.shared (hdf5 : Hdf5File) (source : ByteSource) (io : IoConfig) (codecs : Codecs) (own : Caches) :
    OpenFile (Fin hdf5.datasets.length) where
  view := hdf5.view
  source := source
  io := io
  codecs := codecs
  own := own
  datasets i := (hdf5.datasets.get i).toDatasetIndex

namespace Concurrent

open Thread

section Threads

variable {δ : Type} (build : Build) (file : OpenFile δ) (dataset : δ) (info : NcVariable) (selection : Selection)

/-- Turn raw bytes into values, following any heap pointer they hold. -/
def valuesFromRaw (raw : RawData) : Thread δ Values :=
  if holdsHeapPointers (file.datasets dataset) then do
    let strings ← resolveVlenStrings file raw (file.datasets dataset)
    pure { raw, datatype := (file.datasets dataset).datatype, vlenStrings := some strings }
  else pure { raw, datatype := (file.datasets dataset).datatype, vlenStrings := none }

def readSelection (slab : Hyperslab) : Thread δ Values := do
  let raw ← readHyperslab build file dataset slab
  valuesFromRaw file dataset raw

/-- `Variable::get_values`. -/
def getValues (element : Element) : Thread δ (List element.Value) := do
  let slab ← lift (selection.convert build info.path info.shape)
  let values ← readSelection build file dataset slab
  lift (values.get element)

def getValue (element : Element) : Thread δ element.Value := do
  let values ← getValues build file dataset info selection element
  lift (oneValue info.path values)

def getStrings : Thread δ (List String) := do
  let slab ← lift (selection.convert build info.path info.shape)
  let values ← readSelection build file dataset slab
  lift values.toStrings

def getString : Thread δ String := do
  let strings ← getStrings build file dataset info selection
  lift (oneValue info.path strings)

/-- The bytes of a selection, in native order and row-major. -/
def getRawValues : Thread δ Bytes := do
  let slab ← lift (selection.convert build info.path info.shape)
  let values ← readSelection build file dataset slab
  pure values.raw.bytes

end Threads

end Concurrent

section Performing

variable {hdf5 : Hdf5File} {netcdf : NetcdfFile} (build : Build) (file : OpenFile (Fin hdf5.datasets.length))
  (request : VariableRead hdf5 netcdf)

/-- What a reader does. -/
def VariableRead.perform : Thread (Fin hdf5.datasets.length) request.wanted.Result :=
  let dataset := request.handle.position
  let info := request.handle.var.info
  match request.wanted with
  | .values element => Concurrent.getValues build file dataset info request.selection element
  | .value element => Concurrent.getValue build file dataset info request.selection element
  | .strings => Concurrent.getStrings build file dataset info request.selection
  | .string => Concurrent.getString build file dataset info request.selection
  | .rawValues => Concurrent.getRawValues build file dataset info request.selection

/-- The selection, as a hyperslab of the variable. -/
def VariableRead.slab : Code Hyperslab :=
  request.selection.convert build request.handle.var.info.path request.handle.var.info.shape

/-- What a reader should get, given what the datasets hold. -/
def VariableRead.expected
    (contents : (dataset : Fin hdf5.datasets.length) → Contents file.view (file.datasets dataset)) :
    Code request.wanted.Result :=
  let slab := request.slab build
  let held := contents request.handle.position
  let path := request.handle.var.info.path
  match request.wanted with
  | .values element => slab >>= fun slab => held.values element slab
  | .value element => (slab >>= fun slab => held.values element slab) >>= oneValue path
  | .strings => slab >>= fun slab => held.strings slab
  | .string => (slab >>= fun slab => held.strings slab) >>= oneValue path
  | .rawValues => slab >>= fun slab => .ok (Read.selected (file.datasets request.handle.position) held.elements slab).bytes

def VariableRead.Fits : Prop :=
  ∀ slab, request.slab build = .ok slab → (∀ stride ∈ RowMajor.strides slab.count, stride < wordSize) ∧
    slab.count.prod < wordSize ∧
      slab.count.prod * (file.datasets request.handle.position).elementSize ≤ isizeMax

end Performing

namespace Concurrent

open Thread

section Gives

variable {δ : Type} [DecidableEq δ] {build : Build} {file : OpenFile δ} {proviso : Prop} {dataset : δ}
  {contents : (dataset : δ) → Contents file.view (file.datasets dataset)}

/-- Values that the bytes can be turned into, they are turned into through the caches. -/
theorem valuesFromRaw_returned (serves : file.source.Serves file.image) {raw : RawData} {values : Values}
    (returned : Oxcdf.valuesFromRaw file.view (file.datasets dataset) raw = .ok values) :
    Dialogue.Gives Sharing.answer (agreement build file) proviso (.ok values) (valuesFromRaw file dataset raw) := by
  unfold Oxcdf.valuesFromRaw at returned
  unfold valuesFromRaw
  split at returned
  · next pointers =>
    obtain ⟨strings, resolved, same⟩ := Outcome.bind_eq_ok.mp returned
    cases same
    rw [if_pos pointers]
    exact (resolveVlenStrings_returned serves resolved).bind_ok (Dialogue.Gives.pure proviso _)
  · next plain =>
    cases returned
    rw [if_neg plain]
    exact Dialogue.Gives.pure proviso _

variable (serves : file.source.Serves file.image) (batches : file.source.ServesRanges file.image)
  (holds : file.HoldsArrays build fun dataset => (contents dataset).elements)

include serves batches holds

/-- A selection of a dataset that holds an array, in every interleaving. -/
theorem readHyperslab_written {slab : Hyperslab} (selects : Read.Selects (file.datasets dataset) slab) :
    Dialogue.Gives Sharing.answer (agreement build file) True
      (.ok (Read.selected (file.datasets dataset) (contents dataset).elements slab))
      (readHyperslab build file dataset slab) := by
  have gives := @readHyperslab_gives δ _ build file serves batches holds.identified dataset slab
  have written := @Read.plainHyperslab_written build file.ctx file.codecs file.image (file.datasets dataset) slab
    (file.resolved build dataset) (contents dataset).elements file.own.io.isSome serves (holds.written dataset)
    (holds.decodable dataset) selects
  exact written ▸ gives.weaken fun _ => holds.readable serves dataset

/-- What is made of the values of a selection, is made of what the dataset holds. -/
theorem selection_gives {α : Type} {info : NcVariable} {selection : Selection} {made : Values → Code α}
    {expected : Hyperslab → Code α}
    (selects : ∀ slab, selection.convert build info.path info.shape = .ok slab →
      Read.Selects (file.datasets dataset) slab)
    (each : ∀ slab, (Oxcdf.valuesFromRaw file.view (file.datasets dataset)
      (Read.selected (file.datasets dataset) (contents dataset).elements slab) >>= made) = expected slab) :
    Dialogue.Gives Sharing.answer (agreement build file) True
      (selection.convert build info.path info.shape >>= expected)
      (do
        let slab ← lift (selection.convert build info.path info.shape)
        let values ← readSelection build file dataset slab
        lift (made values)) := by
  refine (Dialogue.Gives.lift True _).bind fun slab converted => ?_
  -- Once the selection is a hyperslab, the bytes read for it always make values.
  obtain ⟨values, returned, -⟩ := (contents dataset).exists_values slab
  rw [← each slab, returned, Outcome.ok_bind]
  have read := (readHyperslab_written serves batches holds (selects slab converted)).bind_ok
    (valuesFromRaw_returned serves returned)
  exact read.bind_ok (Dialogue.Gives.lift True _)

end Gives

section Performing

variable {hdf5 : Hdf5File} {netcdf : NetcdfFile} {build : Build} {file : OpenFile (Fin hdf5.datasets.length)}
  {contents : (dataset : Fin hdf5.datasets.length) → Contents file.view (file.datasets dataset)}

/-- Each reader gets what the dataset of its variable holds, whatever is done between its steps. -/
theorem perform_gives (serves : file.source.Serves file.image) (batches : file.source.ServesRanges file.image)
    (holds : file.HoldsArrays build fun dataset => (contents dataset).elements)
    (request : VariableRead hdf5 netcdf) (selects : ∀ slab, request.slab build = .ok slab →
      Read.Selects (file.datasets request.handle.position) slab) :
    Dialogue.Gives Sharing.answer (agreement build file) True (request.expected build file contents)
      (request.perform build file) := by
  obtain ⟨handle, selection, wanted⟩ := request
  have numbers (element : Element) := selection_gives serves batches holds selects
    ((contents handle.position).get_selected element)
  have texts := selection_gives serves batches holds selects (contents handle.position).toStrings_selected
  cases wanted with
  | values element => exact numbers element
  | value element => exact (numbers element).bind fun values _ => Dialogue.Gives.lift True _
  | strings => exact texts
  | string => exact texts.bind fun strings _ => Dialogue.Gives.lift True _
  | rawValues => exact selection_gives serves batches holds selects (contents handle.position).bytes_selected

end Performing

section Runs

variable {build : Build} {image : FileImage} {strings : Netcdf.VlenStrings} {hdf5 : Hdf5File} {netcdf : NetcdfFile}
  {source : ByteSource} {io : IoConfig} {codecs : Codecs} {own : Caches}

/-- What is selected of a variable lies in the dataset that it is bound to. -/
theorem selects_of_fits (opened : Hdf5File.fromSource build image strings = .ok hdf5)
    (viewed : NetcdfFile.fromHdf5 build hdf5 = .ok netcdf) (named : hdf5.root.WellNamed)
    (words : ∀ dataset ∈ hdf5.datasets, ∀ len ∈ dataset.shape, len < wordSize)
    {request : VariableRead hdf5 netcdf} (fits : request.Fits build (hdf5.shared source io codecs own))
    {slab : Hyperslab} (converted : request.slab build = .ok slab) :
    Read.Selects (hdf5.datasets.get request.handle.position).toDatasetIndex slab := by
  have shows := shows_of_bound opened viewed named request.handle.listed request.handle.bound
  have dims := words _ (List.get_mem hdf5.datasets request.handle.position)
  rw [← shows.shape] at dims
  obtain ⟨strides, elements, allocated⟩ := fits slab converted
  exact ⟨shows.shape ▸ Selection.convert_valid dims converted, strides, elements, allocated⟩

/-- Every variable of a file that is opened as netCDF-4 can be read. -/
theorem exists_handle (opened : Hdf5File.fromSource build image strings = .ok hdf5)
    (viewed : NetcdfFile.fromHdf5 build hdf5 = .ok netcdf) {var : Variable} (listed : var ∈ netcdf.vars) :
    ∃ handle : Handle hdf5 netcdf, handle.var = var := by
  obtain ⟨scales, next, root, -, -, rfl⟩ := follows_of_viewed viewed
  obtain ⟨-, stored⟩ := mem_vars.mp listed
  obtain ⟨dataset, found, bound⟩ := Option.map_eq_some_iff.mp stored
  obtain ⟨position, same⟩ := List.get_of_mem (dataset_found opened found).1
  exact ⟨⟨var, listed, position, by rw [← bound, same]⟩, rfl⟩

variable {ι : Type} {contents : (i : Fin hdf5.datasets.length) → Contents hdf5.view (hdf5.datasets.get i).toDatasetIndex}
  {requests : ι → VariableRead hdf5 netcdf} {sharing : Sharing (Fin hdf5.datasets.length)}

/-- Readers that have not begun yet, each with its request. -/
def asking (build : Build) (file : OpenFile (Fin hdf5.datasets.length)) (requests : ι → VariableRead hdf5 netcdf)
    (sharing : Sharing (Fin hdf5.datasets.length)) :
    Pool Error (sharedCalls (Fin hdf5.datasets.length)) (Sharing (Fin hdf5.datasets.length))
      fun i => (requests i).wanted.Result where
  threads i := (requests i).perform build file
  shared := sharing

/-- However any number of readers of the variables of a file are interleaved, and whatever the caches drop, each
reader that ends has got the numbers or the strings that its variable holds. -/
theorem readers_get_values [DecidableEq ι] (opened : Hdf5File.fromSource build image strings = .ok hdf5)
    (viewed : NetcdfFile.fromHdf5 build hdf5 = .ok netcdf) (named : hdf5.root.WellNamed)
    (words : ∀ dataset ∈ hdf5.datasets, ∀ len ∈ dataset.shape, len < wordSize)
    (serves : source.Serves hdf5.view.file) (batches : source.ServesRanges hdf5.view.file)
    (holds : (hdf5.shared source io codecs own).HoldsArrays build fun i => (contents i).elements)
    (sound : sharing.Sound build (hdf5.shared source io codecs own))
    (fits : ∀ i, (requests i).Fits build (hdf5.shared source io codecs own))
    {pool : Pool Error (sharedCalls (Fin hdf5.datasets.length)) (Sharing (Fin hdf5.datasets.length))
      fun i => (requests i).wanted.Result}
    (run : Pool.Reaches Sharing.answer (Background build (hdf5.shared source io codecs own))
      (asking build (hdf5.shared source io codecs own) requests sharing) pool)
    {i : ι} {outcome : Outcome Error (requests i).wanted.Result} (ended : pool.threads i = .finish outcome) :
    outcome = (requests i).expected build (hdf5.shared source io codecs own) contents := by
  -- Kept by every step of a reader or of the background: what is left of each reader gives what it should get.
  have kept : (asking build (hdf5.shared source io codecs own) requests sharing).Kept Sharing.answer
      (agreement build (hdf5.shared source io codecs own))
      fun i outcome _ => outcome = (requests i).expected build (hdf5.shared source io codecs own) contents := by
    refine ⟨sound, fun i => ⟨sharing, (agreement build _).refl _, ?_⟩⟩
    have gives := perform_gives serves batches holds (requests i) fun slab converted =>
      selects_of_fits opened viewed named words (fits i) converted
    -- A failure of another kind is allowed only where the data cannot be read, and here it can.
    exact (gives sharing).mono fun got _ same => same.resolve_right fun other => other.1 trivial
  obtain ⟨-, later⟩ := kept.reaches background_respects run
  obtain ⟨seen, -, same⟩ := later.ended ended
  exact same

end Runs

section Nested

/-- Whether a dataset is the one of the two integers. -/
def holdsTwoShorts (dataset : DatasetIndex) : Bool :=
  dataset.shape == [2] && dataset.datatype.size == 2 &&
    (match dataset.datatype.class_ with
    | .fixedPoint .big true _ _ => true
    | _ => false) &&
    match dataset.layout with
    | .compact data => data == twoShorts
    | _ => false

/-- The first of the two integers, and the second wherever the first is not. -/
def shortAt (coord : List Nat) : Int64 := if coord = [0] then -2 else 300

section Shorts

variable {dataset : DatasetIndex} (holds : holdsTwoShorts dataset = true)

include holds

theorem twoShorts_shape : dataset.shape = [2] := by
  simp only [holdsTwoShorts, Bool.and_eq_true, beq_iff_eq] at holds
  exact holds.1.1.1

theorem twoShorts_layout : dataset.layout = .compact twoShorts := by
  simp only [holdsTwoShorts, Bool.and_eq_true] at holds
  obtain ⟨-, layout⟩ := holds
  split at layout
  · next data found => rw [found, beq_iff_eq.mp layout]
  · cases layout

theorem twoShorts_type : dataset.datatype.size = 2 ∧ ∃ bitOffset bitPrecision,
    dataset.datatype.class_ = .fixedPoint .big true bitOffset bitPrecision := by
  simp only [holdsTwoShorts, Bool.and_eq_true, beq_iff_eq] at holds
  obtain ⟨⟨⟨-, size⟩, class_⟩, -⟩ := holds
  split at class_
  · next found => exact ⟨size, _, _, found⟩
  · cases class_

theorem shortAt_typed (coord : List Nat) : (Number.signed (shortAt coord)).OfType dataset.datatype := by
  obtain ⟨size, bitOffset, bitPrecision, class_⟩ := twoShorts_type holds
  obtain ⟨⟨version, width, kind⟩, shape⟩ : ∃ type, type = dataset.datatype := ⟨_, rfl⟩
  rw [← shape] at size class_ ⊢
  cases size
  cases class_
  refine .signed (by decide) (by decide) ?_
  unfold shortAt
  split <;> decide

end Shorts

section Files

variable {hdf5 : Hdf5File} (holds : ∀ dataset ∈ hdf5.datasets, holdsTwoShorts dataset.toDatasetIndex = true)

/-- What the datasets of a file hold, all of which are that of the two integers. -/
def shortContents (i : Fin hdf5.datasets.length) : Contents hdf5.view (hdf5.datasets.get i).toDatasetIndex :=
  .numbers
    { number := fun coord => .signed (shortAt coord)
      typed := shortAt_typed (holds _ (List.get_mem hdf5.datasets i)) }

variable {source : ByteSource} {io : IoConfig} {codecs : Codecs} {own : Caches}

include holds

theorem shorts_resolved (i : Fin hdf5.datasets.length) :
    (hdf5.shared source io codecs own).resolved .debug i = .ok none := by
  have layout : ((hdf5.shared source io codecs own).datasets i).layout = .compact twoShorts :=
    twoShorts_layout (holds _ (List.get_mem hdf5.datasets i))
  unfold OpenFile.resolved DatasetIndex.resolveChunks
  rw [layout]

theorem shorts_hold : (hdf5.shared source io codecs own).HoldsArrays .debug fun i => (shortContents holds i).elements where
  decodable i := (shortContents holds i).decodable
  written i := by
    have stored := holds _ (List.get_mem hdf5.datasets i)
    obtain ⟨size, bitOffset, bitPrecision, class_⟩ := twoShorts_type stored
    have layout : ((hdf5.shared source io codecs own).datasets i).layout = .compact twoShorts :=
      twoShorts_layout stored
    unfold Read.Written
    rw [layout]
    refine ⟨?_, by decide, ?_⟩
    · change 0 < (hdf5.datasets.get i).datatype.size
      omega
    · change twoShorts = RowMajor.layOut (fun coord => (Number.signed (shortAt coord)).encode
        ((hdf5.datasets.get i).datatype.byteOrder.getD .little) (hdf5.datasets.get i).datatype.size)
        (hdf5.datasets.get i).shape
      have order : (hdf5.datasets.get i).datatype.byteOrder = some .big := by rw [Datatype.byteOrder, class_]
      rw [twoShorts_shape stored, size, order]
      decide
  -- A compact dataset has no chunks to tell apart or to read ahead.
  identified first second chunks others known := by
    rw [shorts_resolved holds] at known
    cases known
  ahead self i chunks own resolved := by
    rw [shorts_resolved holds] at resolved
    cases resolved

omit holds in
/-- Nothing is held yet. -/
def unread (readahead : Nat) : Sharing (Fin hdf5.datasets.length) := ⟨Read.coldChunks readahead, fun _ => none⟩

omit holds in
theorem unread_sound {readahead : Nat} :
    (unread readahead).Sound .debug (hdf5.shared source io codecs (Read.coldChunks readahead)) := by
  refine ⟨⟨rfl, rfl⟩, nofun, fun cache here => ?_, fun dataset resolved found => ?_⟩
  · cases here
    nofun
  · cases found

section Whole

variable {netcdf : NetcdfFile} {handle : Handle hdf5 netcdf} (shape : handle.var.info.shape = [2])

include shape

omit holds in
theorem slab_whole (wanted : Wanted) : VariableRead.slab .debug ⟨handle, .whole, wanted⟩ = .ok ⟨[0], [2]⟩ := by
  change Selection.whole.convert .debug handle.var.info.path handle.var.info.shape = _
  rw [shape]
  rfl

theorem fits_whole (wanted : Wanted) :
    VariableRead.Fits .debug (hdf5.shared source io codecs own) ⟨handle, .whole, wanted⟩ := by
  intro slab converted
  cases (slab_whole shape wanted).symm.trans converted
  refine ⟨by decide, by decide, ?_⟩
  change 2 * (hdf5.datasets.get handle.position).datatype.size ≤ isizeMax
  rw [(twoShorts_type (holds _ (List.get_mem hdf5.datasets handle.position))).1]
  decide

theorem expected_whole (element : Element) :
    VariableRead.expected .debug (hdf5.shared source io codecs own) ⟨handle, .whole, .values element⟩
      (shortContents holds) = .ok [element.fromI64 (-2), element.fromI64 300] := by
  change (VariableRead.slab .debug ⟨handle, .whole, .values element⟩ >>= fun slab =>
    (shortContents holds handle.position).values element slab) = _
  rw [slab_whole shape]
  cases element <;> rfl

end Whole

end Files

theorem nestedHdf5_shorts : ∀ dataset ∈ nestedHdf5.datasets, holdsTwoShorts dataset.toDatasetIndex = true := by
  decide +kernel

/-- The dataset in a group, read as numbers of each type. -/
theorem readers_get_values_nested : ∃ netcdf, NetcdfFile.fromHdf5 .debug nestedHdf5 = .ok netcdf ∧
    ∃ handle : Handle nestedHdf5 netcdf, handle.var.info.path = "/g/v" ∧
      let file := nestedHdf5.shared (fileSource nestedHdf5.view.file) ⟨0, 0⟩ .refusing (Read.coldChunks 1)
      let requests := fun element : Element => (⟨handle, .whole, .values element⟩ : VariableRead nestedHdf5 netcdf)
      ∀ pool, Pool.Reaches Sharing.answer (Background .debug file)
        (asking .debug file requests (unread 1)) pool →
        ∀ (element : Element) (outcome : Outcome Error (List element.Value)),
          pool.threads element = .finish outcome → outcome = .ok [element.fromI64 (-2), element.fromI64 300] := by
  have run : (NetcdfFile.fromHdf5 .debug nestedHdf5 >>= fun netcdf => .ok (netcdf.vars.map (·.info.path))) =
      (.ok ["/g/v"] : Code (List String)) := by decide +kernel
  obtain ⟨netcdf, viewed, paths⟩ := Outcome.bind_eq_ok.mp run
  obtain ⟨var, listed, path⟩ := List.mem_map.mp (Outcome.ok.inj paths ▸ List.mem_singleton_self "/g/v")
  obtain ⟨handle, rfl⟩ := exists_handle nestedFile_opened viewed listed
  refine ⟨netcdf, viewed, handle, path, fun pool reached element outcome ended => ?_⟩
  have member := List.get_mem nestedHdf5.datasets handle.position
  have shape := (shows_of_bound nestedFile_opened viewed nestedHdf5_wellNamed handle.listed handle.bound).shape.trans
    (twoShorts_shape (nestedHdf5_shorts _ member))
  have same := readers_get_values nestedFile_opened viewed nestedHdf5_wellNamed
    (fun dataset held len inside => ?_) (fileSource_serves _) (fileSource_servesRanges _)
    (shorts_hold nestedHdf5_shorts) unread_sound (fun _ => fits_whole nestedHdf5_shorts shape _) reached ended
  · exact same.trans (expected_whole nestedHdf5_shorts shape element)
  · rw [twoShorts_shape (nestedHdf5_shorts _ held), List.mem_singleton] at inside
    subst inside
    decide

end Nested

end Concurrent

end Oxcdf
