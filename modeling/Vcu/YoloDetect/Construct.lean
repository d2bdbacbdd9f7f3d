import Vcu.Lib.Lines
import Vcu.Lib.Loop
import Vcu.YoloDetect.Boxes
import Vcu.YoloDetect.Rendering

namespace Vcu

open Loop StdString

namespace NetDetect

-- getline with a separator. A piece behind the last separator counts if it is not empty.
def splitString (str : List Char) (flag : Char) : List (List Char) :=
  match Lines.cut flag str with
  | (vecStr, temp) => if temp = [] then vecStr else vecStr ++ [temp]

-- Nothing is extracted from an empty stream, and `data` keeps what was in memory. A number that
-- does not fit an int is cut to its range.
def stringToNum (data : Int) (str : List Char) : Int :=
  if str.dropWhile isspace = [] then data else max (-2147483648) (min 2147483647 (atoi str))

-- What the constructor reads of the program's environment: the conversion of a text to a float,
-- locals that are not initialized, and the memory behind anchorArr.
structure Env (F : Type) where
  stringToFloat : List Char → F
  data : Int
  nmsKind : NmsKind
  heap : Int → Int

variable {F : Type} (env : Env F)

-- The default of maxBoxNum, for which boxArr is allocated before the file has been read.
def defaultMaxBoxNum : Nat := 100

def nmsKindOf (str : List Char) : NmsKind :=
  if str = "greedynms".toList then .greedy
  else if str = "diounms".toList then .diou
  else if str = "nms".toList then .default
  else env.nmsKind

-- The body of the loop over the sections. A missing entry makes `at` throw.
def addLayer (net : NetDetect F) (ite : List Char × StdMap (List Char)) : Option (NetDetect F) :=
  if find ite.1 "yolo".toList = none then some net
  else do
    let netH ← ite.2["net_h".toList]?
    let netW ← ite.2["net_w".toList]?
    let netC ← ite.2["net_c".toList]?
    let outputSize ← ite.2["output_size".toList]?
    let mask ← ite.2["mask".toList]?
    let vec := splitString mask ','
    let betaNms ← ite.2["beta_nms".toList]?
    let nmsKind ← ite.2["nms_kind".toList]?
    some { net with
      nmsType := nmsKindOf env nmsKind
      betaNms := env.stringToFloat betaNms
      vecLayer := net.vecLayer ++ [{
        netH := stringToNum env.data netH
        netW := stringToNum env.data netW
        netC := stringToNum env.data netC
        outputSize := stringToNum env.data outputSize
        gridBoxNum := vec.length
        mask := fun i => stringToNum env.data (vec.getD i []) }] }

-- The constructor, once the file is parsed. The operator[] of a map gives an empty text for an entry
-- that is not there.
def ofNetData (fpgaNetw fpgaNeth : Int) (mpNetData : NetData) : Option (NetDetect F) :=
  let str (key : String) : List Char := (mpNetData.value "net".toList key.toList).getD []
  let vec := splitString (str "anchors") ','
  mpNetData.toList.foldlM (addLayer env) {
    maxBoxNum := stringToNum env.data (str "maxboxes")
    thresh := env.stringToFloat (str "thresh")
    iou := env.stringToFloat (str "iou")
    classNum := stringToNum env.data (str "classes")
    fpgaNetw := fpgaNetw
    fpgaNeth := fpgaNeth
    boxLen := defaultMaxBoxNum
    anchorArr := fun i =>
      if 0 ≤ i ∧ i < vec.length then stringToNum env.data (vec.getD i.toNat []) else env.heap i
    nmsType := .default
    betaNms := env.stringToFloat "0.6".toList
    vecLayer := [] }

-- The constructor accepts a file and makes `net` of it. `key` is what the static key of the parser
-- holds.
def Accepts (fpgaNetw fpgaNeth : Int) (content key : List Char) (net : NetDetect F) : Prop :=
  ∃ n p, rounds NetCfgParser.step n (parserNetCfg content key ∅) = some p ∧ p.step = none ∧
    ofNetData env fpgaNetw fpgaNeth p.mpNetData = some net

variable {env}

-- What the sections of the file do not change.
structure SameSizes (net net' : NetDetect F) : Prop where
  boxLen : net'.boxLen = net.boxLen
  fpgaNetw : net'.fpgaNetw = net.fpgaNetw
  fpgaNeth : net'.fpgaNeth = net.fpgaNeth

theorem addLayer_sameSizes {net net' : NetDetect F} {ite : List Char × StdMap (List Char)}
    (h : addLayer env net ite = some net') : SameSizes net net' := by
  rw [addLayer] at h
  split at h
  · obtain rfl := Option.some.inj h
    exact ⟨rfl, rfl, rfl⟩
  · simp only [Option.bind_eq_bind, Option.bind_eq_some_iff, Option.some.injEq] at h
    obtain ⟨_, -, _, -, _, -, _, -, _, -, _, -, _, -, rfl⟩ := h
    exact ⟨rfl, rfl, rfl⟩

theorem foldlM_addLayer_sameSizes {entries : List (List Char × StdMap (List Char))}
    {net net' : NetDetect F} (h : entries.foldlM (addLayer env) net = some net') :
    SameSizes net net' := by
  induction entries generalizing net with
  | nil =>
      obtain rfl := Option.some.inj h
      exact ⟨rfl, rfl, rfl⟩
  | cons ite entries ih =>
      rw [List.foldlM_cons, Option.bind_eq_bind, Option.bind_eq_some_iff] at h
      obtain ⟨next, hnext, hrest⟩ := h
      have hhead := addLayer_sameSizes hnext
      have htail := ih hrest
      exact ⟨htail.boxLen.trans hhead.boxLen, htail.fpgaNetw.trans hhead.fpgaNetw,
        htail.fpgaNeth.trans hhead.fpgaNeth⟩

-- The array has the default size, whatever the file says.
theorem Accepts.sizes {fpgaNetw fpgaNeth : Int} {content key : List Char} {net : NetDetect F}
    (h : Accepts env fpgaNetw fpgaNeth content key net) :
    net.boxLen = defaultMaxBoxNum ∧ net.fpgaNetw = fpgaNetw ∧ net.fpgaNeth = fpgaNeth := by
  obtain ⟨n, p, -, -, hnet⟩ := h
  have hsame := foldlM_addLayer_sameSizes hnet
  exact ⟨hsame.boxLen, hsame.fpgaNetw, hsame.fpgaNeth⟩

end NetDetect

end Vcu
