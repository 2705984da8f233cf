/-! What is shown to those who ask how to go on. -/

namespace Groovebox.Command

def help : String := "\n".intercalate [
  "Commands:",
  "  :help                       Show this help",
  "  :q / :quit                  Exit",
  "  cmd; cmd                    Run several commands in one line",
  "",
  "Song:",
  "  bpm <n>                     Set tempo",
  "  save \"file.yaml\"            Save song (.json saves JSON)",
  "  open \"file.yaml\"            Load song",
  "  events                      Length of the arrangement in steps",
  "",
  "Tracks:",
  "  track \"Name\"                Add a track",
  "  remove <t>                  Remove a track",
  "  list                        List all tracks",
  "  pad <t> <pad> [n|default]   Show or set one pad's length in steps",
  "  padsteps <t> <n>            Default pad length of a track",
  "  events <t>                  Pad triggers of a track",
  "  check <t>                   Report missing and cyclic references",
  "",
  "Containers (<addr> is 1 for track 1's root, 1.g1 or 1.s1 for named ones):",
  "  seq <addr> [\"p0 ~8 [g1]\"]   Show or replace a container's items",
  "  show <addr>                 Timeline with step ranges",
  "  insert <addr> <i> <item>    Insert an item before index i",
  "  del <addr> <i>...           Delete items",
  "  mv <addr> <from> <to>       Move one item",
  "  replace <addr> <i> <item>   Overwrite one item",
  "",
  "Selection:",
  "  select <addr> <i|a..b>...   Add to the selection",
  "  deselect <addr> [i...]      Remove from (or clear) the selection",
  "  group <addr>                Selection -> new group g<n>",
  "  supergroup <addr>           Selection -> new super-group s<n>",
  "  ungroup <addr>              Inline selected group references",
  "  cut <addr>                  Delete the selection",
  "",
  "Moving blocks:",
  "  drag <addr> [step]          Start dragging the selected block",
  "  drag to <step>              Preview a drop (snapped to 4 steps)",
  "  drop | cancel               Commit or abandon the drag",
  "  move <addr> <a> <b> <step>  Move items a..=b so they start at step",
  "",
  "Items: p0-p7 pad, ~8 pause (~ alone = 4), [g1] group, \x7bs1\x7d super-group",
  ""]

end Groovebox.Command
