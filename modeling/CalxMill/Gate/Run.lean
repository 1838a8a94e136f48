import CalxMill.Gate.Args
import CalxMill.Validity

/-!
# The `gate` command

One run of the arbiter: the flags are split, the anchor source is resolved
from the registry or from the manual flags, and the claim or the composition
is adjudicated.  The registry file is read through `fs`, which gives a path's
content or the text of the read error.
-/

namespace CalxMill.Gate

open Lib Rust

/-- What the process leaves behind: the printed lines and the exit code. -/
structure Outcome where
  stdout : List Str
  stderr : List Str
  code : ℕ

abbrev FileSystem := Str → Except Str Str

def noFiles : FileSystem := fun _ ↦ .error "No such file or directory (os error 2)"

structure GateAnchor where
  anchor : Anchor
  fit : DomainFit
  computed : Option DomainFit
  overridden : Bool
  units : Str
  id : Str
  deriving DecidableEq

def gateFlags : List Str :=
  ["value", "anchor", "tol", "tol-rel", "at-anchor", "units",
    "registry", "anchor-id", "at", "fit-override", "compose"]

def gateUsage : Str :=
  "usage: calx-mill gate --value V --anchor M (--tol T | --tol-rel PCT) --fit-override FIT
       calx-mill gate --value V --registry FILE --anchor-id ID --at k=v,...
       calx-mill gate --compose VERDICT,VERDICT [composite anchor flags as above]
FIT is at-anchor|in-domain|out-of-domain. Registry mode COMPUTES the fit from the
row's domain (--fit-override substitutes it and tags the verdict [fit-override]).
exits: 0 CERTIFIED, 3 PROVISIONAL, 2 REFUSED, 4 usage (never adjudicated)."

def parseFit (s : Str) : Option DomainFit :=
  if s = "at-anchor" then some .atAnchor else
  if s = "in-domain" then some .inDomain else
  if s = "out-of-domain" ∨ s = "out" then some .outOfDomain else none

def fitName : DomainFit → Str
  | .atAnchor => "at-anchor"
  | .inDomain => "in-domain"
  | .outOfDomain => "out-of-domain"

def parseQuery (at' : Str) : Exec Str (List (Str × Str)) := do
  let query ← ((at'.splitOn ',').filter (· ≠ [])).foldlM (fun query part ↦ do
    let (k, v) ← Exec.ofOption ("--at: " ++ debug part ++ " is not key=value")
      (splitOnce "=" part)
    pure (query ++ [(trim k, trim v)])) []
  if query = [] then Exec.err "--at needs at least one key=value" else pure query

/-! ## The anchor source -/

def registryMode (args : Args) : Bool :=
  args.has "registry" || args.has "anchor-id" || args.has "at"

def anyManual (args : Args) : Bool :=
  args.has "anchor" || args.has "tol" || args.has "tol-rel" || args.has "fit-override"

def badFit (s : Str) : Str :=
  "--fit-override: " ++ debug s ++ " (at-anchor|in-domain|out-of-domain)"

def readToString (fs : FileSystem) (file : Str) : Exec Str Str :=
  match fs file with
  | .ok text => .ok text
  | .error e => Exec.err ("--registry " ++ file ++ ": " ++ e)

def conflicting : List Str := ["anchor", "tol", "tol-rel"]

/-- The fit used, and whether the operator declared it. -/
def chooseFit (args : Args) (computed : DomainFit) : Exec Str (DomainFit × Bool) :=
  match args.value "fit-override" with
  | some s => do
      let f ← Exec.ofOption (badFit s) (parseFit s)
      pure (f, true)
  | none => pure (computed, false)

def resolveRegistry (fs : FileSystem) (args : Args) : Exec Str GateAnchor :=
  match conflicting.find? (args.has ·) with
  | some flag => Exec.err ("--" ++ flag ++ " conflicts with --registry (one source of truth)")
  | none =>
  match args.value "registry", args.value "anchor-id", args.value "at" with
  | some file, some id, some at' => do
      let text ← readToString fs file
      let rows ← parseRegistry text
      let row ← Exec.ofOption ("--anchor-id " ++ debug id ++ " not in " ++ file)
        (rows.find? (·.id = id))
      let query ← parseQuery at'
      let computed := computedFit row query
      let (fit, overridden) ← chooseFit args computed
      pure ⟨row.anchor, fit, some computed, overridden, row.units, row.id⟩
  | _, _, _ => Exec.err "registry mode needs --registry, --anchor-id, and --at"

/-- The value of `--tol` or `--tol-rel`, checked for its sign. -/
def parseTol (flag t : Str) : Exec Str F64 := do
  let t ← Exec.ofOption ("--" ++ flag ++ ": bad value " ++ debug t) (F64.parse t)
  if t < 0 then Exec.err ("--" ++ flag ++ " must be non-negative") else pure t

def manualTol (args : Args) (measured : F64) : Exec Str F64 :=
  match args.value "tol", args.value "tol-rel" with
  | some _, some _ => Exec.err "--tol and --tol-rel are exclusive"
  | none, none => Exec.err "manual mode needs --tol or --tol-rel"
  | some t, none => parseTol "tol" t
  | none, some p => do
      let p ← parseTol "tol-rel" p
      pure (p / .fin 100 * measured.abs)

def resolveManual (args : Args) : Exec Str GateAnchor := do
  let m ← Exec.ofOption "manual mode needs --anchor" (args.value "anchor")
  let measured ← Exec.ofOption ("--anchor: bad value " ++ debug m) (F64.parse m)
  let tol ← manualTol args measured
  let s ← Exec.ofOption "manual mode needs --fit-override (there is no computed fit)"
    (args.value "fit-override")
  let fit ← Exec.ofOption (badFit s) (parseFit s)
  pure ⟨⟨measured, tol⟩, fit, none, true, (args.value "units").getD [], []⟩

/-- `none` when there are no anchor flags at all. -/
def resolveGateAnchor (fs : FileSystem) (args : Args) : Exec Str (Option GateAnchor) :=
  if registryMode args then some <$> resolveRegistry fs args else
  if anyManual args then some <$> resolveManual args else pure none

/-! ## Adjudication -/

def usage (msg : Str) : Outcome :=
  ⟨[], ["calx-mill gate: " ++ msg, gateUsage], usageExit⟩

/-- The number being judged and the model's value at the anchor, which is the
number itself unless `--at-anchor` gives another. -/
structure Reading where
  value : F64
  atAnchor : F64
  deriving DecidableEq

def parseReading (missing : Str) (args : Args) : Exec Str Reading := do
  let v ← Exec.ofOption missing (args.value "value")
  let value ← Exec.ofOption ("--value: bad value " ++ debug v) (F64.parse v)
  match args.value "at-anchor" with
  | none => pure ⟨value, value⟩
  | some s => do
      let x ← Exec.ofOption ("--at-anchor: bad value " ++ debug s) (F64.parse s)
      pure ⟨value, x⟩

/-- The tier a reading earns from an anchor. -/
def GateAnchor.tier (ga : GateAnchor) (x : Reading) : Authority :=
  authority (ga.anchor.reproduces x.atAnchor) ga.fit

def parseVerdict (s : Str) : Option Authority :=
  let l := toAsciiLowercase s
  if l = "certified" then some .gate else
  if l = "provisional" then some .crossChecked else
  if l = "refused" then some .advisory else none

def composedName : Verdict → Str
  | .certified => "CERTIFIED (re-anchored composite)"
  | .provisional =>
      "PROVISIONAL (A4: composition is capped below Gate -- the interaction is unvalidated; the bench confirms)"
  | .refused => "REFUSED (the meet includes an Advisory input)"

def parseSpec (spec : Str) : Exec Str (Authority × Authority) := do
  let (sa, sb) ← Exec.ofOption "--compose needs VERDICT,VERDICT" (splitOnce "," spec)
  match parseVerdict (trim sa), parseVerdict (trim sb) with
  | some ta, some tb => pure (ta, tb)
  | _, _ => Exec.err ("--compose: verdicts are certified|provisional|refused, got " ++ debug spec)

/-- Whether the composite earns the top tier from an anchor of its own. -/
def compositeAnchored (args : Args) : Option GateAnchor → Exec Str Bool
  | none => pure false
  | some ga => do
      let x ← parseReading "a composite anchor needs --value" args
      pure (ga.tier x = .gate)

def composed (v : Verdict) : Outcome := ⟨["COMPOSED: " ++ composedName v], [], exitCode v⟩

def composeRun (args : Args) (ga : Option GateAnchor) (spec : Str) : Exec Str Outcome := do
  let (ta, tb) ← parseSpec spec
  let anchored ← compositeAnchored args ga
  pure (composed (verdict (compose ta tb anchored)))

def unitsMismatch (claim anchor : Str) : Outcome :=
  ⟨["REFUSED: claim units " ++ debug claim ++ " do not match anchor units " ++ debug anchor ++
      " -> the bench/oracle gates, not the model."], [], exitCode .refused⟩

/-- The line that shows where the fit came from, in registry mode. -/
def fitLines (ga : GateAnchor) : List Str :=
  match ga.computed with
  | none => []
  | some c =>
      if ga.overridden then
        ["fit: " ++ fitName c ++ " (computed) -> " ++ fitName ga.fit ++ " (OPERATOR OVERRIDE)"]
      else ["fit: " ++ fitName ga.fit ++ " (computed from registry row " ++ debug ga.id ++ ")"]

def overrideTag : Str := " [fit-override]"

def verdictLine (ga : GateAnchor) (x : Reading) : Str :=
  let tag := if ga.overridden then overrideTag else []
  let units := if ga.units = [] then [] else ' ' :: ga.units
  let target := ga.anchor.measured.display ++ "±" ++ ga.anchor.tol.display ++ units
  match verdict (ga.tier x) with
  | .certified =>
      "CERTIFIED value=" ++ x.value.display ++ " (Gate: reproduces anchor " ++ target ++
        " at this query)" ++ tag
  | .provisional =>
      "PROVISIONAL value=" ++ x.value.display ++
        " (CrossChecked: anchored model, extrapolated -- decide/build on it, the bench confirms; NOT a terminal gate)" ++ tag
  | .refused =>
      let why :=
        if !ga.anchor.reproduces x.atAnchor then
          "does not reproduce anchor " ++ target ++ " (got " ++ x.atAnchor.display ++ ")"
        else "out of the anchored domain"
      "REFUSED: " ++ why ++ " -> the bench/oracle gates, not the model." ++ tag

/-- A claim speaks other units than the anchor row. -/
def unitsDiffer (args : Args) (ga : GateAnchor) : Bool :=
  match args.value "units" with
  | some u => !ga.units.isEmpty && u ≠ ga.units
  | none => false

def judged (args : Args) (ga : GateAnchor) (x : Reading) : Outcome :=
  if unitsDiffer args ga then unitsMismatch ((args.value "units").getD []) ga.units else
  ⟨fitLines ga ++ [verdictLine ga x], [], exitCode (verdict (ga.tier x))⟩

def singleRun (args : Args) (ga : Option GateAnchor) : Exec Str Outcome := do
  let ga ← Exec.ofOption
    "need an anchor source: --anchor (--tol|--tol-rel) --fit-override FIT, or --registry FILE --anchor-id ID --at k=v,..." ga
  let x ← parseReading "need --value (the claim being judged)" args
  pure (judged args ga x)

/-- The flags are all known ones and nothing is left over. -/
def checkShape (args : Args) : Exec Str Unit :=
  match args.flags.find? (·.2.isNone) with
  | some (k, _) => Exec.err ("unknown flag --" ++ k)
  | none =>
  match args.positional with
  | p :: _ => Exec.err ("unexpected argument " ++ debug p)
  | [] => pure ()

/-- Everything behind the argument splitter.  An error text of this part is
reported through `usage`. -/
def adjudicate (fs : FileSystem) (args : Args) : Exec Str Outcome := do
  checkShape args
  let ga ← resolveGateAnchor fs args
  match args.value "compose" with
  | some spec => composeRun args ga spec
  | none => singleRun args ga

/-- `run` on the words after `gate`.  Only the argument splitter returns its
error to `main`. -/
def run (fs : FileSystem) (rest : List Str) : Exec Str Outcome := do
  let args ← Args.parse gateFlags rest
  match adjudicate fs args with
  | .error (.err msg) => pure (usage msg)
  | r => r

/-- `main`: an error of `run` exits 2, a panic 101. -/
def gate (fs : FileSystem) (rest : List Str) : Outcome :=
  match run fs rest with
  | .ok out => out
  | .error (.err msg) => ⟨[], ["calx-mill: " ++ msg], 2⟩
  | .error (.panic msg) => ⟨[], [msg], 101⟩

end CalxMill.Gate
