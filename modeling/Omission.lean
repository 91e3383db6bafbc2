import Omission.Gpu.Compat
import Omission.Gpu.Filter2A
import Omission.Gpu.Filter2Warp
import Omission.Gpu.Filter2Mixed
import Omission.Gpu.Filter2Told
import Omission.Gpu.Filter2Shared
import Omission.Gpu.Filter2Emit
import Omission.Gpu.Filter2Grid
import Omission.Gpu.Filter2
import Omission.Gpu.HighOctaves
import Omission.Gpu.NoiseRange
import Omission.Gpu.Sample
import Omission.Gpu.GradVecs2
import Omission.Gpu.GradVecs1
import Omission.Gpu.GradVecs
import Omission.Lib.Threads
import Omission.Lib.Mean
import Omission.Viewer.Tiles
import Omission.Viewer.Workers
import Omission.Cpu.Largest
import Omission.Cpu.Center
import Omission.Lib.Fill
import Omission.SeedText
import Omission.Gpu.Stats
import Omission.Gpu.FilterSeeds
import Omission.Gpu.Forks
import Omission.Gpu.Staged
import Omission.Gpu.Moves
import Omission.NoiseAgree
import Omission.Cpu.Noise
import Omission.Gpu.Noise
import Omission.Cpu.Origin
import Omission.Cpu.Measure
import Omission.Cpu.Flood
import Omission.Lib.Reach
import Omission.Cpu.Pass
import Omission.Cpu.Voronoi
import Omission.Lib.Pool
import Omission.Lib.Grid
import Omission.Gpu.InPlace
import Omission.Net.Stream
import Omission.Uploader
import Omission.Cubiomes.Climate
import Omission.Cubiomes.Areas
import Omission.Cpu.Shift
import Omission.Cubiomes.Replacement
import Omission.Options.Accept
import Omission.Viewer.Scroll
import Omission.Backend.Listing
import Omission.Backend.Thumbs
import Omission.Gpu.Shuffle
import Omission.Gpu.JavaRandom
import Omission.Viewer.Pixels
import Omission.Gpu.Reports
import Omission.Main.Output
import Omission.Main.Batches
import Omission.Main.Network
import Omission.Gpu.OriginCheck
import Omission.Cubiomes.VoronoiSha
import Omission.Cpu.Process
import Omission.Cubiomes.JavaNext
import Omission.Cubiomes.MonteCarlo
import Omission.Backend.Shown
import Omission.Cubiomes.BiomeTree
import Omission.Cubiomes.Scaled
