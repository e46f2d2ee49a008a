import PotatoOS.Bytes
import PotatoOS.Prog
import PotatoOS.Chain
import PotatoOS.Loop
import PotatoOS.Scan
import PotatoOS.Word
import PotatoOS.Ata
import PotatoOS.Volume
import PotatoOS.Drive
import PotatoOS.Partition
import PotatoOS.Table
import PotatoOS.Boot
import PotatoOS.Cluster
import PotatoOS.Alloc
import PotatoOS.Name
import PotatoOS.Alphabet
import PotatoOS.Codec
import PotatoOS.Image
import PotatoOS.Directory
import PotatoOS.Insert
import PotatoOS.Frame
import PotatoOS.Path
import PotatoOS.Compare
import PotatoOS.File
import PotatoOS.Read
import PotatoOS.Window
import PotatoOS.Walk
import PotatoOS.Fetch
import PotatoOS.Halting
import PotatoOS.Pieces
import PotatoOS.Attributes
import PotatoOS.Failing
import PotatoOS.Trace
import PotatoOS.Refused
import PotatoOS.Search
import PotatoOS.Listing
import PotatoOS.Faults
import PotatoOS.Division
import PotatoOS.Grow
import PotatoOS.Split
import PotatoOS.Atomic
import PotatoOS.Tree
import PotatoOS.Put
import PotatoOS.Links
import PotatoOS.Residue
import PotatoOS.RoundTrip
import PotatoOS.Isolation
import PotatoOS.Terminal
import PotatoOS.Pio
import PotatoOS.PioWrite
import PotatoOS.Shell
import PotatoOS.Screen
import PotatoOS.Line
import PotatoOS.Rename
import PotatoOS.Format
import PotatoOS.Switch
import PotatoOS.Paging
import PotatoOS.Mounted
import PotatoOS.WriteFile
import PotatoOS.Filing
import PotatoOS.FileStore
import PotatoOS.Mount
import PotatoOS.Refine
import PotatoOS.BlockIo
import PotatoOS.BlockFile
import PotatoOS.Update
import PotatoOS.Runs
import PotatoOS.Strtok
import PotatoOS.Echo
import PotatoOS.EndAround
import PotatoOS.Checksum
import PotatoOS.Ping
import PotatoOS.Rtc
import PotatoOS.Startup
import PotatoOS.PowerOn
import PotatoOS.Render
import PotatoOS.Serial
import PotatoOS.Hex
