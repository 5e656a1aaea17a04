import NupaNet.Foundation.TextBuffer
import NupaNet.Xdma.Service

/-!
# The dump of a status word

`engine_status_dump` spells a status word out into a buffer of 256 bytes on the
stack: a header with the engine's name, then a word for each bit that is set,
the error words in groups that a mask guards.  A word for every bit is too much
in one of the two directions; how much has to be left out depends on the name.
-/

namespace NupaNet.Xdma

open NupaNet.Foundation

/-! ## `engine_init` and `engine_status_dump` -/

def engineName (idx : Int) (dir : Direction) (channel : Int) (streaming : Bool) : List Char :=
  (toString idx ++ "-" ++ (if dir = .toDevice then "H2C" else "C2H") ++ toString channel ++ "-" ++
    if streaming then "ST" else "MM").toList.take 15

structure StatusWord where
  mask : U32
  text : String

def stateWords : List StatusWord :=
  [⟨xdmaStatBusy, "BUSY,"⟩, ⟨1#32 <<< 1, "DESC_STOPPED,"⟩, ⟨1#32 <<< 2, "DESC_COMPL,"⟩]

def commonErrWords : List StatusWord :=
  [⟨1#32 <<< 3, "ALIGN_MISMATCH "⟩, ⟨1#32 <<< 4, "MAGIC_STOPPED "⟩, ⟨1#32 <<< 5, "INVLIAD_LEN "⟩,
    ⟨1#32 <<< 6, "IDLE_STOPPED "⟩]

def xdmaStatH2cRErrMask : U32 := 0x1F#32 <<< 9

def h2cRErrWords : List StatusWord :=
  [⟨1#32 <<< 9, "UNSUPP_REQ "⟩, ⟨1#32 <<< 10, "COMPL_ABORT "⟩, ⟨1#32 <<< 11, "PARITY "⟩,
    ⟨1#32 <<< 12, "HEADER_EP "⟩, ⟨1#32 <<< 13, "UNEXP_COMPL "⟩]

def xdmaStatH2cWErrMask : U32 := 0x3#32 <<< 14

def h2cWErrWords : List StatusWord :=
  [⟨1#32 <<< 14, "DECODE_ERR "⟩, ⟨1#32 <<< 15, "SLAVE_ERR "⟩]

def xdmaStatC2hRErrMask : U32 := 0x3#32 <<< 9

def c2hRErrWords : List StatusWord :=
  [⟨1#32 <<< 9, "DECODE_ERR "⟩, ⟨1#32 <<< 10, "SLAVE_ERR "⟩]

def descErrWords : List StatusWord :=
  [⟨1#32 <<< 19, "UNSUPP_REQ "⟩, ⟨1#32 <<< 20, "COMPL_ABORT "⟩, ⟨1#32 <<< 21, "PARITY "⟩,
    ⟨1#32 <<< 22, "HEADER_EP "⟩, ⟨1#32 <<< 23, "UNEXP_COMPL "⟩]

def sprintf (text : String) : Edit := .append text.toList

def printWords (v : U32) (words : List StatusWord) : List Edit :=
  words.flatMap fun word => if v &&& word.mask ≠ 0 then [sprintf word.text] else []

/-- The words of a group behind its heading, the last blank of them made a comma. -/
def errGroup (v errMask : U32) (heading : List Edit) (words : List StatusWord) : List Edit :=
  if v &&& errMask ≠ 0 then heading ++ printWords v words ++ [.patch ','] else []

/-- `%08x`. -/
def hex8 (v : U32) : List Char :=
  (List.range 8).map fun k => Nat.digitChar ((v >>> (28 - 4 * k)).toNat % 16)

def dumpHeader (name : List Char) (v : U32) : List Char :=
  "SG engine ".toList ++ name ++ " status: 0x".toList ++ hex8 v ++ ": ".toList

def engineStatusDump (dir : Direction) (name : List Char) (v : U32) : List Edit :=
  [.append (dumpHeader name v)] ++
  printWords v stateWords ++
  errGroup v xdmaStatCommonErrMask [] commonErrWords ++
  (match dir with
    | .toDevice =>
        errGroup v xdmaStatH2cRErrMask [sprintf "R:"] h2cRErrWords ++
        errGroup v xdmaStatH2cWErrMask [sprintf "W:"] h2cWErrWords
    | .fromDevice => errGroup v xdmaStatC2hRErrMask [sprintf "R:"] c2hRErrWords) ++
  errGroup v xdmaStatDescErrMask [sprintf "DESC_ERR:"] descErrWords ++
  [.patch (Char.ofNat 0)]

def bufferSize : Nat := 256

/-! ## The length of the text -/

def totalWeight (words : List StatusWord) : Nat := (words.map fun word => word.text.length).sum

def clearWeight (v : U32) (words : List StatusWord) : Nat :=
  (words.map fun word => if v &&& word.mask = 0 then word.text.length else 0).sum

def maskWeight (errMask : U32) (words : List StatusWord) : Nat :=
  (words.map fun word => if word.mask &&& errMask = word.mask then word.text.length else 0).sum

private theorem written_printWords (v : U32) (words : List StatusWord) :
    written (printWords v words) + clearWeight v words = totalWeight words := by
  induction words with
  | nil => rfl
  | cons word rest ih =>
      have hwords : printWords v (word :: rest) =
          (if v &&& word.mask ≠ 0 then [sprintf word.text] else []) ++ printWords v rest := rfl
      rw [hwords, written_append]
      simp only [clearWeight, totalWeight, List.map_cons, List.sum_cons] at ih ⊢
      by_cases hset : v &&& word.mask = 0
      · rw [if_neg (not_not.mpr hset), if_pos hset, written_nil]
        omega
      · rw [if_pos hset, if_neg hset, written_cons, written_nil, sprintf, Edit.size,
          String.length_toList]
        omega

private theorem written_errGroup (v errMask : U32) (heading : List Edit) (words : List StatusWord) :
    written (errGroup v errMask heading words) =
      if v &&& errMask ≠ 0 then written heading + written (printWords v words) else 0 := by
  unfold errGroup
  split
  · simp [Edit.size]
  · rfl

private theorem maskWeight_le_clear {v errMask : U32} (clear : v &&& errMask = 0)
    (words : List StatusWord) : maskWeight errMask words ≤ clearWeight v words := by
  apply List.sum_le_sum
  intro word _
  by_cases hsub : word.mask &&& errMask = word.mask
  · have hclear : v &&& word.mask = 0 := by
      rw [← hsub, BitVec.and_comm word.mask, ← BitVec.and_assoc, clear]
      simp
    rw [if_pos hsub, if_pos hclear]
  · rw [if_neg hsub]
    exact Nat.zero_le _

private theorem dumpHeader_length (name : List Char) (v : U32) :
    (dumpHeader name v).length = 31 + name.length := by
  have hdigits : (hex8 v).length = 8 := by rw [hex8, List.length_map, List.length_range]
  unfold dumpHeader
  rw [List.length_append, List.length_append, List.length_append, List.length_append, hdigits,
    show "SG engine ".toList.length = 10 from rfl, show " status: 0x".toList.length = 11 from rfl,
    show ": ".toList.length = 2 from rfl]
  omega

private theorem engineName_length (idx : Int) (dir : Direction) (channel : Int) (streaming : Bool) :
    (engineName idx dir channel streaming).length ≤ 15 :=
  List.length_take_le ..

def h2cWords : List StatusWord :=
  stateWords ++ commonErrWords ++ h2cRErrWords ++ h2cWErrWords ++ descErrWords

private theorem clearWeight_append (v : U32) (first second : List StatusWord) :
    clearWeight v (first ++ second) = clearWeight v first + clearWeight v second := by
  simp [clearWeight]

private theorem errGroup_cases (v errMask : U32) (heading : List Edit) (words : List StatusWord) :
    written (errGroup v errMask heading words) + clearWeight v words =
        written heading + totalWeight words ∨
      written (errGroup v errMask heading words) = 0 ∧
        maskWeight errMask words ≤ clearWeight v words := by
  rw [written_errGroup]
  by_cases hguard : v &&& errMask = 0
  · rw [if_neg (not_not.mpr hguard)]
    exact .inr ⟨rfl, maskWeight_le_clear hguard words⟩
  · have hwords := written_printWords v words
    rw [if_pos hguard]
    left
    omega

private theorem engineStatusDump_within_iff (dir : Direction) (v : U32) {name : List Char}
    (short : name.length ≤ 15) :
    Within bufferSize [] (engineStatusDump dir name v) ↔
      dir = .fromDevice ∨ name.length ≤ 3 + clearWeight v h2cWords := by
  have hheader := dumpHeader_length name v
  have hstarted : dumpHeader name v ≠ [] := by
    rw [← List.length_pos_iff]
    omega
  have hroom : (dumpHeader name v).length + 1 ≤ bufferSize := by
    rw [hheader, bufferSize]
    omega
  -- the header alone fits, so that the rest is a matter of lengths
  have hwithin : ∀ rest, Within bufferSize [] (.append (dumpHeader name v) :: rest) ↔
      31 + name.length + written rest + 1 ≤ 256 := by
    intro rest
    rw [Within, Edit.Inside, Edit.apply, List.nil_append, within_iff hstarted hroom, hheader]
    exact and_iff_right (hheader ▸ hroom)
  have hstate := written_printWords v stateWords
  have hcommon := errGroup_cases v xdmaStatCommonErrMask [] commonErrWords
  have hdesc := errGroup_cases v xdmaStatDescErrMask [sprintf "DESC_ERR:"] descErrWords
  rw [show totalWeight stateWords = 29 from rfl] at hstate
  rw [show written [] = 0 from rfl, show totalWeight commonErrWords = 54 from rfl,
    show maskWeight xdmaStatCommonErrMask commonErrWords = 41 from rfl] at hcommon
  rw [show written [sprintf "DESC_ERR:"] = 9 from rfl, show totalWeight descErrWords = 52 from rfl,
    show maskWeight xdmaStatDescErrMask descErrWords = 52 from rfl] at hdesc
  unfold engineStatusDump
  rw [List.append_assoc, List.append_assoc, List.append_assoc, List.append_assoc,
    List.singleton_append, hwithin]
  cases dir with
  | toDevice =>
      have hread := errGroup_cases v xdmaStatH2cRErrMask [sprintf "R:"] h2cRErrWords
      have hwrite := errGroup_cases v xdmaStatH2cWErrMask [sprintf "W:"] h2cWErrWords
      rw [show written [sprintf "R:"] = 2 from rfl, show totalWeight h2cRErrWords = 52 from rfl,
        show maskWeight xdmaStatH2cRErrMask h2cRErrWords = 52 from rfl] at hread
      rw [show written [sprintf "W:"] = 2 from rfl, show totalWeight h2cWErrWords = 21 from rfl,
        show maskWeight xdmaStatH2cWErrMask h2cWErrWords = 21 from rfl] at hwrite
      simp only [written_append, written_cons, written_nil, Edit.size, h2cWords,
        clearWeight_append, reduceCtorEq, false_or]
      omega
  | fromDevice =>
      have hread := errGroup_cases v xdmaStatC2hRErrMask [sprintf "R:"] c2hRErrWords
      rw [show written [sprintf "R:"] = 2 from rfl, show totalWeight c2hRErrWords = 21 from rfl,
        show maskWeight xdmaStatC2hRErrMask c2hRErrWords = 21 from rfl] at hread
      simp only [written_append, written_cons, written_nil, Edit.size, true_or, iff_true]
      omega

/-- The dump of a status fits for every C2H engine; for an H2C engine the words of the clear bits
have to make up for what its name is longer than three characters. -/
theorem engineStatusDump_fits_iff (idx : Int) (dir : Direction) (channel : Int) (streaming : Bool)
    (v : U32) :
    Within bufferSize [] (engineStatusDump dir (engineName idx dir channel streaming) v) ↔
      dir = .fromDevice ∨
        (engineName idx dir channel streaming).length ≤ 3 + clearWeight v h2cWords :=
  engineStatusDump_within_iff dir v (engineName_length idx dir channel streaming)

/-- The status of a device that has vanished, for the first H2C engine. -/
theorem vanished_status_overflows :
    ¬ Within bufferSize []
      (engineStatusDump .toDevice (engineName 0 .toDevice 0 false) 0xffffffff#32) := by
  rw [engineStatusDump_within_iff _ _ (engineName_length 0 .toDevice 0 false)]
  rintro (hdir | hlength)
  · cases hdir
  · rw [show clearWeight 0xffffffff#32 h2cWords = 0 from rfl,
      show (engineName 0 .toDevice 0 false).length = 9 from rfl] at hlength
    omega

end NupaNet.Xdma
