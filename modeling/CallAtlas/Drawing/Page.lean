import CallAtlas.Drawing.Calls
import CallAtlas.Report.Stats

/-!
# Summary page

The page that leads to the drawings of a program and sums it up.
-/

namespace CallAtlas.Drawing

open CallGraph Report

/-- A file that the page leads to. -/
structure Link where
  href : String
  label : String
  deriving DecidableEq, Repr

/-- What the page shows. -/
structure Index where
  title : String
  stats : Stats
  /-- The number of calls by provenance. -/
  provenance : List (Provenance × Int)
  entries : List String
  reachable : Int
  graphs : List Link
  /-- The number of drawings of single methods. -/
  methodDrawings : Int

namespace Page

/-- The provenances that are listed, with their titles. -/
def provenances : List (Provenance × String) :=
  [(.direct, "Static / special"), (.virtual, "Virtual / interface"),
   (.override, "Override (dispatch)"), (.dynamic, "Invokedynamic"),
   (.external, "External target")]

/-- The opening of the page up to its heading. -/
def opening (theme : Theme) (title : String) : String :=
  let title := Text.escaped title
  "<!DOCTYPE html>\n<html lang=\"en\">\n<head>\n<meta charset=\"utf-8\">\n<title>" ++ title
    ++ "</title>\n<style>\nbody \x7b font-family: \"Helvetica Neue\", Helvetica, Arial, "
    ++ "sans-serif; font-size: 14px; color: " ++ theme.textColor ++ "; background: "
    ++ theme.background ++ "; margin: 2em; max-width: 900px; \x7d\n"
    ++ "h1 \x7b font-size: 18px; font-weight: 600; margin-bottom: 0.5em; \x7d\n"
    ++ "h2 \x7b font-size: 14px; font-weight: 600; margin-top: 1.5em; "
    ++ "border-bottom: 1px solid #ddd; padding-bottom: 4px; \x7d\n"
    ++ "table \x7b border-collapse: collapse; margin: 0.5em 0; \x7d\n"
    ++ "th, td \x7b text-align: left; padding: 3px 12px 3px 0; font-size: 13px; \x7d\n"
    ++ "th \x7b font-weight: 600; \x7d\n"
    ++ "td.num \x7b text-align: right; font-variant-numeric: tabular-nums; \x7d\n"
    ++ ".prov \x7b display: inline-block; width: 10px; height: 10px; border-radius: 2px; "
    ++ "margin-right: 4px; vertical-align: middle; \x7d\n"
    ++ "a \x7b color: " ++ theme.entryBorder ++ "; \x7d\n"
    ++ ".bar \x7b height: 8px; border-radius: 2px; display: inline-block; "
    ++ "vertical-align: middle; \x7d\n"
    ++ ".ep \x7b font-family: \"Courier New\", monospace; font-size: 12px; \x7d\n"
    ++ "</style>\n</head>\n<body>\n<h1>" ++ title ++ "</h1>\n"

/-- A row with a number. -/
def row (label : String) (n : Int) : String :=
  s!"<tr><td>{label}</td><td class=\"num\">{n}</td></tr>\n"

/-- The table of figures. -/
def summary (i : Index) : String :=
  let s := i.stats
  "<h2>Summary</h2>\n<table>\n" ++ row "Classes" s.classes ++ row "Methods" s.methods
    ++ row "Call sites" s.callSites ++ row "Unresolved sites" s.unresolved
    ++ row "Skipped classes" s.skipped ++ row "Callers" s.callers ++ row "Edges" s.edges
    ++ row "Distinct callees" s.distinctCallees ++ row "Entry points" i.entries.length
    ++ row "Reachable methods" i.reachable
    ++ (if 0 < i.methodDrawings then row "CFGs generated" i.methodDrawings else "")
    ++ "</table>\n"

/-- The row of a provenance: a patch of its colour, its number and a bar for its share. -/
def provenanceRow (theme : Theme) (total : Int) (p : Provenance) (title : String) (n : Int) :
    String :=
  let color := theme.edgeColor p
  let width := max (Int.tdiv (n * 200) total) 2
  s!"<tr><td><span class=\"prov\" style=\"background:{color}\"></span></td><td>{title}</td>"
    ++ s!"<td class=\"num\">{n}</td><td><span class=\"bar\" "
    ++ s!"style=\"width:{width}px;background:{color}\"></span></td></tr>\n"

/-- The table of provenances, nothing without calls. -/
def provenanceTable (theme : Theme) (i : Index) : String :=
  let total := (i.provenance.map Prod.snd).foldl (· + ·) 0
  if total ≤ 0 then "" else
  "<h2>Edge Provenance</h2>\n<table>\n"
    ++ "<tr><th></th><th>Category</th><th>Count</th><th></th></tr>\n"
    ++ String.join (provenances.map fun (p, title) =>
        let n := (i.provenance.lookup p).getD 0
        if n = 0 then "" else provenanceRow theme total p title n)
    ++ "</table>\n"

/-- The links to the drawings. -/
def links (i : Index) : String :=
  let all := i.graphs.map (fun l =>
      s!"<a href=\"{Text.escaped l.href}\">{Text.escaped l.label}</a>")
    ++ (if 0 < i.methodDrawings then ["<a href=\"cfg/\">Per-method CFGs</a>"] else [])
  if all.isEmpty then "" else "<h2>Graphs</h2>\n<p>" ++ " | ".intercalate all ++ "</p>\n"

/-- The most entry points that are listed. -/
def maxEntries : Nat := 50

/-- The list of entry points. -/
def entries (i : Index) : String :=
  if i.entries.isEmpty then "" else
  "<h2>Entry Points</h2>\n"
    ++ s!"<p>{i.entries.length} methods with no incoming call in the artifact:</p>\n<table>\n"
    ++ String.join ((i.entries.take maxEntries).map fun e =>
        s!"<tr><td class=\"ep\">{Text.escaped e}</td></tr>\n")
    ++ (if maxEntries < i.entries.length then
        s!"<tr><td>... and {i.entries.length - maxEntries} more</td></tr>\n" else "")
    ++ "</table>\n"

/-- The table of a ranking, nothing if it is empty. -/
def ranking (title column : String) (cs : List Count) : String :=
  if cs.isEmpty then "" else
  s!"<h2>{title}</h2>\n<table>\n<tr><th>Name</th><th>{column}</th></tr>\n"
    ++ String.join ((cs.take 15).map fun c =>
        s!"<tr><td class=\"ep\">{Text.escaped c.name}</td><td class=\"num\">{c.count}</td></tr>\n")
    ++ "</table>\n"

end Page

open Page in
/-- The text of the page. -/
def indexPage (theme : Theme) (i : Index) : String :=
  opening theme i.title ++ summary i ++ provenanceTable theme i ++ links i ++ entries i
    ++ ranking "Top Classes" "Callers" i.stats.topOwners
    ++ ranking "Top Callers" "Outgoing" i.stats.topCallers
    ++ ranking "Top Callees" "Incoming" i.stats.topCallees
    ++ "</body></html>\n"

end CallAtlas.Drawing
