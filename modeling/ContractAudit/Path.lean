import ContractAudit.Text

/-! Paths.

A path is a text whose segments stand between slashes.  An absolute path begins with one slash,
or with exactly two, which are kept apart; three or more count as one.  `normalize` drops empty
segments and `.`, and lets `..` take away the segment before it; `absolute` puts a relative path
below a directory first.  What lies below a root is told by `isWithin`, and `relative` names a
path as seen from there. -/

namespace ContractAudit.Path

/-- The segment of a directory itself. -/
def here : Text := "."

/-- The segment of the directory above. -/
def up : Text := ".."

/-- The slashes at the beginning that count. -/
def lead : Text → Text
  | '/' :: '/' :: '/' :: _ => ['/']
  | '/' :: '/' :: _ => ['/', '/']
  | '/' :: _ => ['/']
  | _ => []

def isAbsolute (p : Text) : Bool := Text.startsWith ['/'] p

/-- The segments that are not empty. -/
def segments (p : Text) : List Text := (Text.split '/' p).filter (! ·.isEmpty)

/-- The stack of segments, the last on top, after one more segment. -/
def push (rooted : Bool) (stack : List Text) (segment : Text) : List Text :=
  if segment.isEmpty || segment == here then stack
  else if segment == up then
    match stack with
    | [] => if rooted then [] else [up]
    | top :: rest => if top == up then up :: top :: rest else rest
  else segment :: stack

/-- The segments that are left when `.` and `..` are carried out. -/
def resolved (rooted : Bool) (segments : List Text) : List Text :=
  (segments.foldl (push rooted) []).reverse

/-- The shortest spelling of a path. -/
def normalize (p : Text) : Text :=
  match lead p ++ Text.join ['/'] (resolved (isAbsolute p) (Text.split '/' p)) with
  | [] => here
  | q => q

/-- The path `p` as seen from the directory `base`. -/
def join (base p : Text) : Text :=
  if isAbsolute p then p
  else if base.isEmpty || Text.endsWith ['/'] base then base ++ p
  else base ++ '/' :: p

/-- The shortest spelling of `p` from the root on, `cwd` being the working directory. -/
def absolute (cwd p : Text) : Text := normalize (if isAbsolute p then p else join cwd p)

def directory (p : Text) : Text :=
  let head := (p.reverse.dropWhile (· ≠ '/')).reverse
  if head.all (· == '/') then head else (head.reverse.dropWhile (· == '/')).reverse

def name (p : Text) : Text := (p.reverse.takeWhile (· ≠ '/')).reverse

/-- The longest common beginning of two lists. -/
def commonLead : List Text → List Text → List Text
  | a :: as, b :: bs => if a = b then a :: commonLead as bs else []
  | _, _ => []

/-- The path `p` as seen from the directory `start`; the empty path cannot be seen. -/
def relative? (cwd start p : Text) : Option Text :=
  if p.isEmpty then none
  else
    let base := segments (absolute cwd start)
    let target := segments (absolute cwd p)
    let shared := (commonLead base target).length
    match List.replicate (base.length - shared) up ++ target.drop shared with
    | [] => some here
    | steps => some (Text.join ['/'] steps)

/-- The path lies at `root` or below. -/
def isWithin (cwd root p : Text) : Bool :=
  let root := absolute cwd root
  '/' :: Text.join ['/'] (commonLead (segments root) (segments (absolute cwd p))) == root

/-- The parts of a path by which it is compared with others: its leading slashes and the
segments other than `.`.  A backslash counts as a slash. -/
def parts (p : Text) : List Text :=
  let p := p.map fun c => if c = '\\' then '/' else c
  let root := lead p
  (if root.isEmpty then [] else [root]) ++ (segments p).filter (· ≠ here)

/-- One of two paths is the end of the other, segment by segment. -/
def sameEnd (p q : Text) : Bool :=
  let ps := parts p
  let qs := parts q
  ! ps.isEmpty && ! qs.isEmpty && (ps.isSuffixOf qs || qs.isSuffixOf ps)

end ContractAudit.Path
