import MarkupNesting.Proofs.ManyFiles

/-! Files that cannot be analysed. What can be asked about the files is settled one file after
another before anything is analysed or written: the first file of which nothing can be asked is all
that is reported, and without such a file there is a response for each. -/

namespace MarkupNesting

namespace CommandLine

namespace Surroundings

variable (s : Surroundings) (o : Options) (path : String)

end Surroundings

variable {s : Surroundings} {o : Options} {path : String}

variable {args : List String}

end CommandLine

end MarkupNesting
