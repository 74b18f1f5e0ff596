import Ptu.Lib.Delimited
import Ptu.Spec.Redirect

/-!
# The cache of streaming mode

`CDE_init` seeds the trie of cached files from `locally-cached-files.txt`, and a run appends the
paths that it fetches.
-/

namespace Ptu

/-- A line of `locally-cached-files.txt` without its newline; a NUL ends it for `TrieInsert`. -/
def seedLine (t : Trie) (line : CString) : Except Fatal Trie :=
  let s := line.takeWhile (· != 0)
  if s = [] then .ok t else trieInsert s t

/-- `cached_files_trie` after `CDE_init`, `none` for a file that cannot be opened. -/
def cachedFilesTrie (file : Option CString) : Except Fatal Trie := do
  let some text := file | return trieNew
  let pieces := text.splitOn newline
  let t ← pieces.dropLast.foldlM seedLine trieNew
  -- the last line must end with a newline
  if pieces.getLast? ≠ some [] then throw .assertion
  return t

/-- A run: calls of `create_abspath_within_cderoot`. -/
def streamRun (g : Cde) (paths : List CString) (e : Effects) : Except Fatal Effects :=
  paths.foldlM (fun e path => (createAbspathWithinCderoot g path e).map Prod.snd) e

/-- `locally-cached-files.txt` after a run. It was opened with `"a"`. -/
def cachedFile (g : Cde) (file : Option CString) (e : Effects) : Option CString :=
  if g.cachedFilesFp then some (file.getD [] ++ Delimited.terminated newline e.cached) else file

end Ptu
